import MachTree.Process.Launch
import MachTree.Proofs.Build.Environment
import MachTree.Proofs.Environment
import MachTree.Proofs.Json.LineEnds
import MachTree.Proofs.Text.Utf8

/-! What becomes of mach's reply on its way through captured lines.  The lines are joined without
their ends, so the reply arrives without them.  It means the same, unless one of the three line
ends that JSON lets stand in a string is in it; these are lost from names and directories. -/
namespace MachTree

namespace Text

theorem join_map_ofList (css : List (List Char)) :
    String.join (css.map String.ofList) = String.ofList css.flatten := by
  refine String.toList_inj.mp ?_
  rw [String.toList_join, List.flatMap_map, String.toList_ofList]
  simp

end Text

theorem Launch.join_printedLines (text : String) :
    String.join (printedLines (Text.encoded text)) =
      String.ofList (text.toList.filter fun c => !Text.isLineEnd c) := by
  rw [printedLines, Text.join_map_ofList, Text.decodeLenient_encoded, Text.lines_unifyNewlines,
    Text.flatten_lines]

namespace Json

variable {text : String}

/-- The line ends that may stand in a string as they are. -/
def isQuotableEnd (c : Char) : Bool := c == '\u0085' || c == '\u2028' || c == '\u2029'

/-- A text without the line ends that may stand in a string. -/
def seamless (text : String) : String :=
  String.ofList (text.toList.filter fun c => !isQuotableEnd c)

theorem isQuotableEnd_iff {c : Char} :
    isQuotableEnd c = true ↔ Text.isLineEnd c = true ∧ 0x1f < c.toNat := by
  have heq (d : Char) : c = d ↔ c.toNat = d.toNat :=
    ⟨congrArg Char.toNat, fun h => Char.ext (UInt32.toNat_inj.mp h)⟩
  simp only [isQuotableEnd, Bool.or_eq_true, beq_iff_eq, heq, Text.isLineEnd_iff]
  show (c.toNat = 0x85 ∨ c.toNat = 0x2028) ∨ c.toNat = 0x2029 ↔ _
  omega

/-- A text that is captured as lines and joined is read like the text without the line ends that may
stand in a string. -/
theorem parse_captured {v : Json} (h : parse text = .ok v) :
    ∃ v', parse (seamless text) = .ok v' ∧
      parse (String.join (Launch.printedLines (Text.encoded text))) = .ok v' := by
  have hquotable : ∀ c, (!isQuotableEnd c) = false → Text.isLineEnd c = true := fun c hc =>
    (isQuotableEnd_iff.mp (by simpa using hc)).1
  obtain ⟨v', hv', -⟩ := document_filter hquotable (parse_eq_ok.mp h)
  have hends : ∀ c, (!Text.isLineEnd c) = false → Text.isLineEnd c = true := fun c hc => by
    simpa using hc
  obtain ⟨v'', hv'', hsame⟩ := document_filter hends hv'
  -- What is left of the line ends after the first step are control characters.
  have hcontrol : DropsControl (fun c => !Text.isLineEnd c)
      (text.toList.filter fun c => !isQuotableEnd c) := by
    intro c hc hend
    have hnot := (List.mem_filter.mp hc).2
    by_cases hlow : c.toNat ≤ 0x1f
    · exact hlow
    · have hquoted : isQuotableEnd c = true :=
        isQuotableEnd_iff.mpr ⟨by simpa using hend, Nat.lt_of_not_le hlow⟩
      simp [hquoted] at hnot
  have hboth : (text.toList.filter fun c => !isQuotableEnd c).filter (fun c => !Text.isLineEnd c) =
      text.toList.filter fun c => !Text.isLineEnd c := by
    rw [List.filter_filter]
    refine List.filter_congr fun c _ => ?_
    cases hend : Text.isLineEnd c with
    | true => rfl
    | false =>
      have hnot : isQuotableEnd c = false := Bool.eq_false_iff.mpr fun hquoted => by
        rw [(isQuotableEnd_iff.mp hquoted).1] at hend
        cases hend
      simp [hnot]
  rw [hsame hcontrol, hboth] at hv''
  refine ⟨v', parse_eq_ok.mpr ?_, parse_eq_ok.mpr ?_⟩
  · rwa [seamless, String.toList_ofList]
  · rwa [Launch.join_printedLines, String.toList_ofList]

theorem seamless_of_none (h : ∀ c ∈ text.toList, isQuotableEnd c = false) :
    seamless text = text := by
  rw [seamless, List.filter_eq_self.mpr fun c hc => by simp [h c hc], String.ofList_toList]

end Json

namespace Mach

open Json (seamless)

variable {host : Host} {j : Journal} {m : Mach} {command : List String} {text : String}
  {env : Environment} {output : List String}

/-- The environment that mach prints, captured as lines, is the one in its reply without the line
ends that may stand in a string; a reply that is no environment without them is refused.  So a
reply with none of them arrives as it is. -/
theorem queryEnvironment_of_captured (hc : m.effectiveCommand = .ok command)
    (hrun : host.runner j.calls (m.environmentCall command) =
      .finished 0 (Launch.printedLines (Text.encoded text)) output)
    (henv : IsEnvironment text env) :
    (∀ env', m.queryEnvironment.perform host j =
        (.ok env', j ++ [.called (m.environmentCall command)]) ↔
      IsEnvironment (seamless text) env') ∧
    ((∀ env', ¬ IsEnvironment (seamless text) env') →
      (m.queryEnvironment.perform host j).1 = .error (.failed .noEnvironment)) ∧
    ((∀ c ∈ text.toList, Json.isQuotableEnd c = false) →
      m.queryEnvironment.perform host j =
        (.ok env, j ++ [.called (m.environmentCall command)])) := by
  obtain ⟨v, hv, he⟩ := henv
  obtain ⟨v', hseamless, hjoined⟩ := Json.parse_captured hv
  have hread (env' : Environment) :
      readReply (String.join (Launch.printedLines (Text.encoded text))) = .ok env' ↔
        IsEnvironment (seamless text) env' := by
    rw [readReply_eq_ok]
    simp only [IsEnvironment, hjoined, hseamless]
  have hperform := perform_queryEnvironment hc host j
  rw [hrun] at hperform
  simp only [ne_eq, not_true_eq_false, if_false] at hperform
  have hdecided : ∀ env', m.queryEnvironment.perform host j =
      (.ok env', j ++ [.called (m.environmentCall command)]) ↔
        IsEnvironment (seamless text) env' := by
    intro env'
    rw [← hread, hperform]
    rcases readReply (String.join (Launch.printedLines (Text.encoded text))) with
      (f | e) | found <;> simp
  refine ⟨hdecided, fun hnone => ?_, fun hfree => ?_⟩
  · -- what is left of the text is still a JSON text, so it is its items that do not fit
    have hschema : ∃ e, Environment.ofJson v' = .error e := by
      cases hschema : Environment.ofJson v' with
      | error e => exact ⟨e, rfl⟩
      | ok env' => exact absurd ⟨v', hseamless, hschema⟩ (hnone env')
    obtain ⟨e, hschema⟩ := hschema
    have hrefused : readReply (String.join (Launch.printedLines (Text.encoded text))) =
        .error (.inr (.schema e)) := by
      rw [readReply, hjoined]
      simp only [hschema]
    rw [hperform, hrefused]
  · rw [hdecided, Json.seamless_of_none hfree]
    exact ⟨v, hv, he⟩

section Plain

open Json (inQuotes IsPlain Reads)

def plainReply (topobjdir topsrcdir : String) : String :=
  String.ofList ('\x7b' ::
    inQuotes "mozconfig" (':' :: '\x7b' ::
      inQuotes "configure_args" (':' :: '[' :: ']' :: ',' ::
      inQuotes "make_extra" (':' :: '[' :: ']' :: ',' ::
      inQuotes "make_flags" (':' :: '[' :: ']' :: ',' ::
      inQuotes "path" (':' :: inQuotes "" ('\x7d' :: ',' ::
    inQuotes "topobjdir" (':' :: inQuotes topobjdir (',' ::
    inQuotes "topsrcdir" (':' :: inQuotes topsrcdir ['\x7d']))))))))))

def plainEnvironment (topobjdir topsrcdir : String) : Environment :=
  { mozconfig := ⟨[], [], [], ""⟩, topobjdir, topsrcdir }

theorem toJson_plainEnvironment (topobjdir topsrcdir : String) :
    (plainEnvironment topobjdir topsrcdir).toJson = Json.ofFields
      [Json.entry "mozconfig" (Json.ofFields
        [Json.entry "configure_args" (.array []), Json.entry "make_extra" (.array []),
          Json.entry "make_flags" (.array []), Json.entry "path" (.string "")]),
        Json.entry "topobjdir" (.string topobjdir), Json.entry "topsrcdir" (.string topsrcdir)] :=
  rfl

theorem isEnvironment_plainReply {topobjdir topsrcdir : String} (hobjdir : IsPlain topobjdir.toList)
    (hsrcdir : IsPlain topsrcdir.toList) :
    IsEnvironment (plainReply topobjdir topsrcdir) (plainEnvironment topobjdir topsrcdir) := by
  have hlist {depth : Nat} {rest : List Char} :
      Reads (.value (.array [])) (depth + 1) ('[' :: ']' :: rest) rest := .emptyArray rfl
  have hpath {depth : Nat} {rest : List Char} : Reads (.members [Json.entry "path" (.string "")])
      depth (inQuotes "path" (':' :: inQuotes "" ('\x7d' :: rest))) rest :=
    .lastInQuotes (by decide) (.inQuotes (by decide) _ _)
  have hdocument : Json.document (plainReply topobjdir topsrcdir).toList =
      .ok (plainEnvironment topobjdir topsrcdir).toJson := by
    rw [plainReply, String.toList_ofList, toJson_plainEnvironment]
    refine Json.document_eq_ok.mpr ⟨[], .object (.memberInQuotes (by decide) (.object ?_)
      (.memberInQuotes (by decide) (.inQuotes hobjdir _ _)
        (.lastInQuotes (by decide) (.inQuotes hsrcdir _ _)))), rfl⟩
    exact .memberInQuotes (by decide) hlist (.memberInQuotes (by decide) hlist
      (.memberInQuotes (by decide) hlist hpath))
  exact ⟨_, Json.parse_eq_ok.mpr hdocument, Environment.ofJson_toJson _⟩

end Plain

/-- A build whose object directory has a line separator in its name. -/
def separatorHost : Host :=
  { runner := fun _ _ =>
      .finished 0 (Launch.printedLines (Text.encoded (plainReply "/o\u2028bj" "/s"))) [] }

def separatorMach : Mach := { srcdir := .ofString "/s", command := ["/s/mach"] }

/-- The object directory arrives under another name. -/
theorem queryEnvironment_of_captured_separator :
    IsEnvironment (plainReply "/o\u2028bj" "/s") (plainEnvironment "/o\u2028bj" "/s") ∧
    (separatorMach.queryEnvironment.perform separatorHost []).1 =
      .ok (plainEnvironment "/obj" "/s") := by
  have henv : IsEnvironment (plainReply "/o\u2028bj" "/s") (plainEnvironment "/o\u2028bj" "/s") :=
    isEnvironment_plainReply (by decide) (by decide)
  have hseamless : seamless (plainReply "/o\u2028bj" "/s") = plainReply "/obj" "/s" := by
    rw [seamless, plainReply, String.toList_ofList]
    exact congrArg String.ofList (by decide)
  have hrun : separatorHost.runner [] (separatorMach.environmentCall ["/s/mach"]) =
      .finished 0 (Launch.printedLines (Text.encoded (plainReply "/o\u2028bj" "/s"))) [] := rfl
  have hcaptured := queryEnvironment_of_captured (j := []) (m := separatorMach) rfl hrun henv
  refine ⟨henv, congrArg Prod.fst ((hcaptured.1 _).mpr ?_)⟩
  rw [hseamless]
  exact isEnvironment_plainReply (by decide) (by decide)

end Mach
end MachTree

import MachTree.Environment
import MachTree.Proofs.Checks

/-! Reports that are an environment.  A report is read just when all the items that are asked for
are there and fit; it is then kept as it is, without the items that are not asked for.  Of any other
report the first item that does not fit is named. -/
namespace MachTree

/-- The fields of an object that have one of the names, in the order of the names. -/
def Json.only (names : List String) (v : Json) : Json :=
  .object (names.filterMap fun name => (v.field? name).map (entry name))

theorem Json.field?_of_get {v field : Json} {name : String} (h : v.get name = field)
    (hne : field ≠ .null) : v.field? name = some field := by
  rw [get] at h
  cases hf : v.field? name with
  | none => exact absurd (by simpa [hf] using h.symm) hne
  | some found => simpa [hf] using h

theorem Json.only_eq {v : Json} (fields : List (String × Json))
    (h : ∀ f ∈ fields, v.field? f.1 = some f.2) :
    v.only (fields.map Prod.fst) = .object (fields.map fun f => entry f.1 f.2) := by
  rw [only, List.filterMap_map]
  refine congrArg Json.object ?_
  induction fields with
  | nil => rfl
  | cons f fields ih =>
    obtain ⟨hf, hfields⟩ := List.forall_mem_cons.mp h
    simpa [hf] using ih hfields

namespace Environment

/-- The objects of a report: the report itself, and the user's configuration in it. -/
inductive Part
  | report
  | mozconfig

namespace Part

def name : Part → String
  | report => "environment"
  | mozconfig => "mozconfig"

def value (v : Json) : Part → Json
  | report => v
  | mozconfig => v.get "mozconfig"

end Part

/-- The items that are asked for: an object, or a field of one that is a list of strings or a
string. -/
inductive Item
  | object (part : Part)
  | strings (part : Part) (key : String)
  | string (part : Part) (key : String)

namespace Item

def inOrder : List Item :=
  [.object .report, .object .mozconfig, .strings .mozconfig "configure_args",
    .strings .mozconfig "make_extra", .strings .mozconfig "make_flags", .string .mozconfig "path",
    .string .report "topobjdir", .string .report "topsrcdir"]

/-- That an item of a report is there and is what is asked for. -/
def Fits (v : Json) : Item → Prop
  | object part => ∃ fields, part.value v = .object fields
  | strings part key => ∃ ss, (part.value v).get key = .texts ss
  | string part key => ∃ s, (part.value v).get key = .string s

/-- The name of an item, and what is asked for in place of what is there. -/
def complaint (v : Json) : Item → String
  | object part => part.name ++ ": expected object, got " ++ (part.value v).kind
  | strings part key => part.name ++ "." ++ key ++ ": expected string[]"
  | string part key =>
    part.name ++ "." ++ key ++ ": expected string, got " ++ ((part.value v).get key).kind

/-- That an item does not fit, and all items before it do. -/
def IsFirstMisfit (v : Json) (item : Item) : Prop :=
  ∃ before after, inOrder = before ++ item :: after ∧ (∀ earlier ∈ before, earlier.Fits v) ∧
    ¬ item.Fits v

def check (v : Json) : Item → Except SchemaError Unit
  | object part => requireObject (part.value v) part.name
  | strings part key => (requireStrings (part.value v) key part.name).map fun _ => ()
  | string part key => (requireString (part.value v) key part.name).map fun _ => ()

end Item

variable {v : Json} {item : Item} {key name : String}

theorem stringItems?_eq_some {items : List Json} {ss : List Symbols} :
    stringItems? items = some ss ↔ items = ss.map .string := by
  induction items generalizing ss with
  | nil => cases ss <;> simp [stringItems?]
  | cons w items ih =>
    cases w with
    | string s =>
      cases ss with
      | nil => simp [stringItems?]
      | cons t ss =>
        simp only [stringItems?, Option.map_eq_some_iff, ih, List.map_cons, List.cons.injEq,
          Json.string.injEq]
        constructor
        · rintro ⟨rest, hrest, rfl, rfl⟩
          exact ⟨rfl, hrest⟩
        · rintro ⟨rfl, hrest⟩
          exact ⟨ss, hrest, rfl, rfl⟩
    | _ => cases ss <;> simp [stringItems?]

theorem requireStrings_eq_ok {ss : List Symbols} :
    requireStrings v key name = .ok ss ↔ v.get key = .texts ss := by
  rw [requireStrings, Json.texts]
  cases v.get key with
  | array items =>
    cases h : stringItems? items with
    | none =>
      have hne : items ≠ ss.map .string := fun he => by
        simp [stringItems?_eq_some.mpr he] at h
      simpa [h] using hne
    | some found => simp [← stringItems?_eq_some, h]
  | _ => simp

theorem requireString_eq_ok {s : Symbols} :
    requireString v key name = .ok s ↔ v.get key = .string s := by
  rw [requireString]
  cases v.get key <;> simp

section Passed

variable {α : Type} {found : Except SchemaError α}

theorem passed_eq_ok : (found.map fun _ => ()) = .ok () ↔ ∃ a, found = .ok a := by
  cases found <;> simp [Except.map]

theorem passed_eq_error {e : SchemaError} :
    (found.map fun _ => ()) = .error e ↔ found = .error e := by
  cases found <;> simp [Except.map]

end Passed

theorem Item.check_eq_ok_iff : item.check v = .ok () ↔ item.Fits v := by
  cases item with
  | object part => cases h : part.value v <;> simp [check, Fits, requireObject, h]
  | strings part key => simp only [check, Fits, passed_eq_ok, requireStrings_eq_ok]
  | string part key => simp only [check, Fits, passed_eq_ok, requireString_eq_ok]

theorem requireObject_eq_error {e : SchemaError} (h : requireObject v name = .error e) :
    e = .notObject name v.kind := by
  cases v <;> cases h <;> rfl

theorem requireStrings_eq_error {e : SchemaError} (h : requireStrings v key name = .error e) :
    e = .notStrings name key := by
  rw [requireStrings] at h
  split at h
  · split at h <;> cases h
    rfl
  · cases h
    rfl

theorem requireString_eq_error {e : SchemaError} (h : requireString v key name = .error e) :
    e = .notString name key (v.get key).kind := by
  rw [requireString] at h
  split at h <;> cases h
  rfl

theorem Item.message_of_check {e : SchemaError} (h : item.check v = .error e) :
    e.message = item.complaint v := by
  cases item with
  | object part => rw [requireObject_eq_error h, SchemaError.message, complaint]
  | strings part key =>
    rw [requireStrings_eq_error (passed_eq_error.mp h), SchemaError.message, complaint]
  | string part key =>
    rw [requireString_eq_error (passed_eq_error.mp h), SchemaError.message, complaint]

theorem symbolItems_texts (ss : List Symbols) : (Json.texts ss).symbolItems = ss := by
  simp [Json.texts, Json.symbolItems, Json.items, Json.symbols?, List.filterMap_map,
    Function.comp_def]

theorem requireStrings_bind {α : Type} (f : List Symbols → Except SchemaError α) :
    (requireStrings v key name >>= f) =
      ((requireStrings v key name).map fun _ => ()) >>= fun _ => f (v.get key).symbolItems := by
  cases h : requireStrings v key name with
  | error e => rfl
  | ok ss => rw [requireStrings_eq_ok.mp h, symbolItems_texts]; rfl

theorem requireString_bind {α : Type} (f : Symbols → Except SchemaError α) :
    (requireString v key name >>= f) =
      ((requireString v key name).map fun _ => ()) >>= fun _ =>
        f ((v.get key).symbols?.getD []) := by
  cases h : requireString v key name with
  | error e => rfl
  | ok s => rw [requireString_eq_ok.mp h]; rfl

def read (v : Json) : Environment where
  mozconfig := {
    configureArgs := ((v.get "mozconfig").get "configure_args").symbolItems
    makeExtra := ((v.get "mozconfig").get "make_extra").symbolItems
    makeFlags := ((v.get "mozconfig").get "make_flags").symbolItems
    path := ((v.get "mozconfig").get "path").symbols?.getD [] }
  topobjdir := (v.get "topobjdir").symbols?.getD []
  topsrcdir := (v.get "topsrcdir").symbols?.getD []

/-- The items of a report are looked at one after the other; then what the report says is taken. -/
theorem ofJson_eq (v : Json) :
    ofJson v = (Item.inOrder.forM (Item.check v) >>= fun _ => .ok (read v)) := by
  simp only [ofJson, mozconfigOfJson, bind_assoc, pure_bind, requireStrings_bind,
    requireString_bind, List.forM_eq_forM, Item.inOrder, List.forM_cons, List.forM_nil,
    Item.check, Part.value, Part.name]
  rfl

theorem ofJson_eq_ok {e : Environment} :
    ofJson v = .ok e ↔ (∀ item ∈ Item.inOrder, item.Fits v) ∧ read v = e := by
  simp only [← Item.check_eq_ok_iff, ← forM_eq_ok, ofJson_eq]
  cases Item.inOrder.forM (Item.check v) <;> simp [bind, Except.bind]

/-- A report is not read when an item does not fit, and the first that does not is the one that the
message is about. -/
theorem exists_error_iff {message : String} :
    (∃ error, ofJson v = .error error ∧ error.message = message) ↔
      ∃ item, Item.IsFirstMisfit v item ∧ message = item.complaint v := by
  have hchecks : ∀ error, ofJson v = .error error ↔
      Item.inOrder.forM (Item.check v) = .error error := fun error => by
    rw [ofJson_eq]
    cases Item.inOrder.forM (Item.check v) <;> simp [bind, Except.bind]
  simp only [hchecks, forM_eq_error, Item.check_eq_ok_iff]
  constructor
  · rintro ⟨error, ⟨before, item, after, horder, hbefore, hitem⟩, rfl⟩
    refine ⟨item, ⟨before, after, horder, hbefore, fun hfits => ?_⟩, Item.message_of_check hitem⟩
    cases hitem.symm.trans (Item.check_eq_ok_iff.mpr hfits)
  · rintro ⟨item, ⟨before, after, horder, hbefore, hmisfit⟩, rfl⟩
    cases hitem : item.check v with
    | ok u => exact absurd (Item.check_eq_ok_iff.mp hitem) hmisfit
    | error error =>
      exact ⟨error, ⟨before, item, after, horder, hbefore, hitem⟩, Item.message_of_check hitem⟩

/-- A report with the items that are asked for and nothing else, in the order in which an
environment is written. -/
def trimmed (v : Json) : Json :=
  .object ((v.only ["mozconfig", "topobjdir", "topsrcdir"]).fields.map fun f =>
    if f.1 = Symbols.ofString "mozconfig" then
      (f.1, f.2.only ["configure_args", "make_extra", "make_flags", "path"])
    else f)

theorem ofJson_toJson (e : Environment) : ofJson e.toJson = .ok e := by
  refine ofJson_eq_ok.mpr ⟨?_, ?_⟩
  · simp only [Item.inOrder, List.forall_mem_cons, List.not_mem_nil, false_imp_iff, implies_true]
    exact ⟨⟨_, rfl⟩, ⟨_, rfl⟩, ⟨_, rfl⟩, ⟨_, rfl⟩, ⟨_, rfl⟩, ⟨_, rfl⟩, ⟨_, rfl⟩, ⟨_, rfl⟩, trivial⟩
  · simp [read, toJson, mozconfigToJson, Json.get, Json.field?, symbolItems_texts, Json.symbols?]

theorem toJson_injective {e e' : Environment} (h : e.toJson = e'.toJson) : e = e' :=
  Except.ok.inj ((ofJson_toJson e).symm.trans (h ▸ ofJson_toJson e'))

theorem field?_texts (h : ∃ ss, v.get key = .texts ss) :
    v.field? key = some (.texts (v.get key).symbolItems) := by
  obtain ⟨ss, hss⟩ := h
  rw [Json.field?_of_get hss (by simp [Json.texts]), hss, symbolItems_texts]

theorem field?_string (h : ∃ s, v.get key = .string s) :
    v.field? key = some (.string ((v.get key).symbols?.getD [])) := by
  obtain ⟨s, hs⟩ := h
  rw [Json.field?_of_get hs (by simp), hs]
  rfl

theorem toJson_read (h : ∀ item ∈ Item.inOrder, item.Fits v) : (read v).toJson = trimmed v := by
  simp only [Item.inOrder, List.forall_mem_cons, Item.Fits, Part.value] at h
  obtain ⟨-, ⟨fields, hm⟩, hargs, hextra, hflags, hpath, hobjdir, hsrcdir, -⟩ := h
  -- Each field that is asked for is there, so that it is kept at both levels.
  have hconfig : (v.get "mozconfig").only ["configure_args", "make_extra", "make_flags", "path"] =
      mozconfigToJson (read v).mozconfig := by
    refine Json.only_eq [("configure_args", .texts (read v).mozconfig.configureArgs),
      ("make_extra", .texts (read v).mozconfig.makeExtra),
      ("make_flags", .texts (read v).mozconfig.makeFlags),
      ("path", .string (read v).mozconfig.path)] ?_
    simp only [List.forall_mem_cons]
    exact ⟨field?_texts hargs, field?_texts hextra, field?_texts hflags, field?_string hpath,
      by simp⟩
  have hreport : v.only ["mozconfig", "topobjdir", "topsrcdir"] =
      .object [Json.entry "mozconfig" (v.get "mozconfig"),
        Json.entry "topobjdir" (.string (read v).topobjdir),
        Json.entry "topsrcdir" (.string (read v).topsrcdir)] := by
    refine Json.only_eq [("mozconfig", v.get "mozconfig"),
      ("topobjdir", .string (read v).topobjdir), ("topsrcdir", .string (read v).topsrcdir)] ?_
    simp only [List.forall_mem_cons]
    exact ⟨Json.field?_of_get rfl (by simp [hm]), field?_string hobjdir, field?_string hsrcdir,
      by simp⟩
  simp [trimmed, hreport, hconfig, Json.fields, toJson, Json.entry]

/-- A report is read just when each item that is asked for fits, and what is read from it is the
report without the items that are not asked for.  Every environment is read back from the report
of it.  Of a report that is not read, the first item that does not fit is named. -/
theorem ofJson_exact :
    (∀ report e, ofJson report = .ok e ↔
      (∀ item ∈ Item.inOrder, item.Fits report) ∧ e.toJson = trimmed report) ∧
    (∀ report, (∃ e, ofJson report = .ok e) ↔ ∀ item ∈ Item.inOrder, item.Fits report) ∧
    (∀ e, ofJson (toJson e) = .ok e) ∧
    ∀ report message, (∃ error, ofJson report = .error error ∧ error.message = message) ↔
      ∃ item, Item.IsFirstMisfit report item ∧ message = item.complaint report := by
  refine ⟨fun report e => ?_, fun report => ?_, ofJson_toJson, fun _ _ => exists_error_iff⟩
  · rw [ofJson_eq_ok]
    refine and_congr_right fun hfits => ?_
    rw [← toJson_read hfits]
    exact ⟨fun he => he ▸ rfl, fun he => (toJson_injective he).symm⟩
  · simp only [ofJson_eq_ok, exists_and_left, exists_eq', and_true]

end Environment
end MachTree

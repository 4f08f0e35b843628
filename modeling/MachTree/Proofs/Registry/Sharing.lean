import MachTree.Proofs.Registry.Alone
import MachTree.Proofs.Registry.History
import MachTree.Proofs.Registry.Locks

/-! One setting up for all threads.  Between two times that a tree is forgotten its build is set up
to an end once at most, and whoever asks for it then is given what that came to. -/
namespace MachTree
namespace Registry

variable {τ : Type} {h : List (Mark τ)} {key : Path} {lock : Nat}

/-- What a thread that has the lock of a tree knows of the tree. -/
def Phase.Knows (h : List (Mark τ)) : Phase → Prop
  | probing _ _ key _ => setUps key h = [] ∧ standing key h = none
  | storing found key _ => setUps key h = [found]
  | leaving (.build b) key _ => ∃ stage, setUps key h = [(stage, b)]
  | leaving .raised key _ => standing key h = none
  | _ => True

theorem Phase.Knows.append_singleton {p : Phase} {m : Mark τ} (hp : p.Knows h)
    (hm : ∀ key lock, p.inside? = some (key, lock) → ¬ m.Touches key) : p.Knows (h ++ [m]) := by
  cases p with
  | probing root settings key lock =>
    have hn := hm key lock rfl
    simpa [Knows, Mark.tally_of_not_touches hn, Mark.settle_of_not_touches hn] using hp
  | storing found key lock =>
    have hn := hm key lock rfl
    simpa [Knows, Mark.tally_of_not_touches hn] using hp
  | leaving answer key lock =>
    have hn := hm key lock rfl
    cases answer with
    | build b => simpa [Knows, Mark.tally_of_not_touches hn] using hp
    | raised => simpa [Knows, Mark.settle_of_not_touches hn] using hp
    | forgotten => trivial
  | _ => trivial

@[simp] theorem Request.knows_start (request : Request) : (request.start key).Knows h := by
  cases request <;> trivial

namespace Threads

variable {s s' : Threads τ} {t u : τ}

/-- The registry is what its history says, and threads go by that. -/
structure Recorded (s : Threads τ) : Prop where
  entries : ∀ key,
    standing key s.history = (s.registry.entries.get? key).map fun e => (e.stage, e.build)
  settled : ∀ key, (∀ t found lock, s.phase t ≠ .storing found key lock) →
    setUps key s.history = (standing key s.history).toList
  knows : ∀ t, (s.phase t).Knows s.history
  lawful : Lawful s.history

theorem Recorded.start (showProgress : Bool) : Recorded (start showProgress : Threads τ) where
  entries _ := rfl
  settled _ _ := rfl
  knows _ := trivial
  lawful := lawful_nil

/-- No other thread is storing an entry of a tree whose lock a thread has. -/
theorem Locked.not_storing (hl : Locked s) (ht : (s.phase t).inside? = some (key, lock))
    (hn : ∀ found lock, s.phase t ≠ .storing found key lock) :
    ∀ u found lock, s.phase u ≠ .storing found key lock := by
  intro u found lock' hu
  obtain rfl := hl.unique ht (u := u) (by rw [hu]; rfl)
  exact hn found lock' hu

theorem Locked.probing_unique (hl : Locked s) (ht : (s.phase t).IsProbing key)
    (hu : (s.phase u).IsProbing key) : t = u := by
  obtain ⟨root, settings, lock, hp⟩ := ht
  obtain ⟨root', settings', lock', hp'⟩ := hu
  exact hl.unique (by rw [hp]; rfl) (by rw [hp']; rfl)

variable [DecidableEq τ]

/-- A step makes one mark at most; it may make it then, and has the lock of the tree it is about. -/
theorem Recorded.mark_step (hs : Recorded s) (h : Step t s s') :
    s'.history = s.history ∨ ∃ m, s'.history = s.history ++ [m] ∧ m.Allowed s.history ∧
      ∀ key, m.Touches key → ∃ lock, (s.phase t).inside? = some (key, lock) := by
  have hk := hs.knows t
  cases h with
  | @finish root settings key lock found hp =>
    rw [hp] at hk
    refine .inr ⟨.probed t key found, rfl, hk.1, ?_⟩
    rintro _ rfl
    exact ⟨lock, by rw [hp]; rfl⟩
  | @store found key lock hp =>
    refine .inr ⟨.stored t key found, rfl, trivial, ?_⟩
    rintro _ rfl
    exact ⟨lock, by rw [hp]; rfl⟩
  | @forget key lock hp =>
    refine .inr ⟨.forgot t key, rfl, trivial, ?_⟩
    rintro _ rfl
    exact ⟨lock, by rw [hp]; rfl⟩
  | @release answer key lock hp =>
    rw [hp] at hk
    cases answer with
    | build b => exact .inr ⟨.returned t key b, rfl, hk, fun _ hm => hm.elim⟩
    | _ => exact .inl (List.append_nil _)
  | @read key hp =>
    refine .inr ⟨.told t key (s.registry.stageOf key), rfl, ?_, fun _ hm => hm.elim⟩
    simp [Mark.Allowed, stageOf, hs.entries key, Function.comp_def]
  | _ => exact .inl rfl

theorem Recorded.lawful_step (hs : Recorded s) (h : Step t s s') :
    Lawful s'.history := by
  rcases hs.mark_step h with he | ⟨m, he, hm, -⟩
  · rw [he]
    exact hs.lawful
  · rw [he]
    exact hs.lawful.append_singleton hm

theorem Recorded.entries_step (hs : Recorded s) (h : Step t s s') (key : Path) :
    standing key s'.history = (s'.registry.entries.get? key).map fun e => (e.stage, e.build) := by
  have he := hs.entries key
  cases h with
  | @store found k lock hp =>
    by_cases hk : k = key
    · simp [Mark.settle, Registry.store, hk]
    · simp [Mark.settle, Registry.store, hk, Ne.symm hk, he]
  | @forget k lock hp =>
    by_cases hk : k = key
    · simp [Mark.settle, without, hk]
    · simp [Mark.settle, without, hk, Ne.symm hk, he]
  | @release answer k lock hp => cases answer <;> simpa [Answer.marks, Mark.settle] using he
  | _ => simpa [Mark.settle] using he

theorem Recorded.knows_step (hs : Recorded s) (hl : Locked s) (h : Step t s s') (u : τ) :
    (s'.phase u).Knows s'.history := by
  have hk := hs.knows u
  by_cases hut : u = t
  · subst hut
    cases h with
    | call request cwd hp => simp
    | @find root settings key lock entry hp he =>
      -- nobody is storing an entry of the tree, so what stands is all that setting it up came to
      have hfree := hs.settled key (hl.not_storing (t := u) (by rw [hp]; rfl) (by simp [hp]))
      have hstand := hs.entries key
      rw [he] at hstand
      rw [hstand] at hfree
      simpa [Phase.Knows] using ⟨entry.stage, hfree⟩
    | @probe root settings key lock hp he =>
      have hfree := hs.settled key (hl.not_storing (t := u) (by rw [hp]; rfl) (by simp [hp]))
      have hstand := hs.entries key
      rw [he] at hstand
      rw [hstand] at hfree
      simpa [Phase.Knows] using ⟨hfree, hstand⟩
    | @finish root settings key lock found hp =>
      rw [hp] at hk
      simp [Phase.Knows, Mark.tally, hk.1]
    | @raise root settings key lock hp =>
      rw [hp] at hk
      simpa [Phase.Knows] using hk.2
    | @store found key lock hp =>
      rw [hp] at hk
      have hk' : setUps key s.history = [found] := hk
      simpa [Phase.Knows, Mark.tally, hk'] using ⟨found.1, rfl⟩
    | _ => simp [Phase.Knows]
  · rw [h.phase_of_ne hut]
    rcases hs.mark_step h with he | ⟨m, he, -, hm⟩
    · rw [he]
      exact hk
    · rw [he]
      refine hk.append_singleton ?_
      intro key lock hu hm'
      obtain ⟨lock', ht⟩ := hm key hm'
      exact hut (hl.unique hu ht)

theorem Step.storing (h : Step t s s') {found : Stage × Option Build}
    (hu : s.phase u = .storing found key lock) :
    s'.phase u = .storing found key lock ∨ s'.history = s.history ++ [.stored u key found] := by
  by_cases hut : u = t
  · subst hut
    cases h with
    | store _ _ _ hp =>
      rw [hu] at hp
      cases hp
      exact .inr rfl
    | _ => simp_all
  · exact .inl (by rw [h.phase_of_ne hut, hu])

theorem Recorded.settled_step (hs : Recorded s) (h : Step t s s') (key : Path)
    (hfree : ∀ u found lock, s'.phase u ≠ .storing found key lock) :
    setUps key s'.history = (standing key s'.history).toList := by
  -- what has come of setting the tree up and what stands differ while a thread is storing it
  by_cases hold : ∃ u found lock, s.phase u = .storing found key lock
  · obtain ⟨u, found, lock, hu⟩ := hold
    rcases h.storing hu with hu' | he
    · exact absurd hu' (hfree u found lock)
    · have hk : setUps key s.history = [found] := by simpa [hu, Phase.Knows] using hs.knows u
      simp [he, Mark.tally, Mark.settle, hk]
  · simp only [not_exists] at hold
    have hk := hs.settled key hold
    cases h with
    | @finish root settings k lock found hp =>
      have hne : k ≠ key := by
        rintro rfl
        exact hfree t found lock (by simp)
      simpa [Mark.tally, Mark.settle, hne] using hk
    | @store found k lock hp =>
      have hne : k ≠ key := by
        rintro rfl
        exact hold t found lock hp
      simpa [Mark.tally, Mark.settle, hne] using hk
    | @forget k lock hp =>
      by_cases hne : k = key
      · simp [Mark.tally, Mark.settle, hne]
      · simpa [Mark.tally, Mark.settle, hne] using hk
    | @release answer k lock hp =>
      cases answer <;> simpa [Answer.marks, Mark.tally, Mark.settle] using hk
    | _ => simpa [Mark.tally, Mark.settle] using hk

theorem Recorded.step (hs : Recorded s) (hl : Locked s) (h : Step t s s') : Recorded s' where
  entries := hs.entries_step h
  settled := hs.settled_step h
  knows := hs.knows_step hl h
  lawful := hs.lawful_step h

theorem Reachable.locked_and_recorded (hs : Reachable s) : Locked s ∧ Recorded s := by
  induction hs with
  | start showProgress => exact ⟨Locked.start showProgress, Recorded.start showProgress⟩
  | step _ h ih => exact ⟨ih.1.step h, ih.2.step ih.1 h⟩

/-- Whatever steps a thread takes, the second one starts to set up a tree, and it can take them. -/
def SetsUpNext (s : Threads τ) (t : τ) (key : Path) : Prop :=
  (∃ s₁, Step t s s₁) ∧ ∀ s₁, Step t s s₁ →
    (∃ s₂, Step t s₁ s₂) ∧ ∀ s₂, Step t s₁ s₂ → (s₂.phase t).IsProbing key

theorem setsUpNext_of_waiting {root : Path} {settings : Option Settings}
    (hp : s.phase t = .waiting (.get root settings) key lock) (hl : s.holder lock = none)
    (he : s.registry.entries.get? key = none) : SetsUpNext s t key := by
  refine ⟨⟨_, .acquire _ _ _ hp hl⟩, ?_⟩
  intro s₁ h₁
  have hp₁ : s₁.phase t = .holding (.get root settings) key lock := by cases h₁ <;> simp_all
  have he₁ : s₁.registry.entries.get? key = none := by cases h₁ <;> simp_all
  refine ⟨⟨_, .probe _ _ _ _ hp₁ he₁⟩, ?_⟩
  intro s₂ h₂
  have hp₂ : s₂.phase t = .probing root settings key lock := by cases h₂ <;> simp_all
  exact ⟨root, settings, lock, hp₂⟩

/-- A thread whose setting up of a tree has raised gives the lock back, with the tree as unknown as
before; a thread that waits for the lock to ask for the build sets it up. -/
theorem Recorded.retry (hs : Recorded s) (hl : Locked s)
    (ht : s.phase t = .leaving .raised key lock) (h : Step t s s') :
    s'.registry = s.registry ∧ s'.registry.entries.get? key = none ∧ s'.holder lock = none ∧
      ∀ u root settings lock', s'.phase u = .waiting (.get root settings) key lock' →
        lock' = lock ∧ SetsUpNext s' u key := by
  have hnone : s.registry.entries.get? key = none := by
    have hk := hs.knows t
    rw [ht] at hk
    have hstand := hs.entries key
    rw [show standing key s.history = none from hk] at hstand
    simpa using hstand.symm
  have hlock := hl.chosen t key lock (by rw [ht]; rfl)
  have hl' := hl.step h
  cases h with
  | @release answer k l hp =>
    rw [ht] at hp
    cases hp
    refine ⟨rfl, hnone, by simp, ?_⟩
    intro u root settings lock' hu
    have hlock' := hl'.chosen u key lock' (by rw [hu]; rfl)
    obtain rfl : lock' = lock := Option.some.inj (hlock'.symm.trans hlock)
    exact ⟨rfl, setsUpNext_of_waiting hu (by simp) hnone⟩
  | _ => simp_all

end Threads

/-- Between two times that a tree is forgotten, what is handed out is what the one setting up of it
came to. -/
theorem Lawful.one_setUp {before during after : List (Mark τ)}
    (hh : Lawful (before ++ during ++ after)) (hf : Fresh key before)
    (hn : ∀ t, .forgot t key ∉ during) :
    (during.filterMap (Mark.probed? key)).length ≤ 1 ∧ ∀ t b, .returned t key b ∈ during →
      ∃ stage, during.filterMap (Mark.probed? key) = [(stage, b)] := by
  have hall : setUps key (before ++ during) = during.filterMap (Mark.probed? key) := by
    rw [setUps_append hn, hf.setUps_eq, List.nil_append]
  have hle : (during.filterMap (Mark.probed? key)).length ≤ 1 := by
    rw [← hall]
    exact hh.left.setUps_length_le
  refine ⟨hle, ?_⟩
  intro t b hb
  obtain ⟨first, rest, rfl⟩ := List.append_of_mem hb
  obtain ⟨stage, hone⟩ : ∃ stage, setUps key (before ++ first) = [(stage, b)] :=
    hh (before ++ first) (.returned t key b) (rest ++ after) (by simp)
  rw [setUps_append fun u hu => hn u (List.mem_append_left _ hu), hf.setUps_eq] at hone
  refine ⟨stage, ?_⟩
  simp only [List.nil_append] at hone
  simp only [List.filterMap_append, hone, List.length_append, List.length_singleton] at hle ⊢
  have hrest : (List.filterMap (Mark.probed? key) (.returned t key b :: rest)) = [] :=
    List.eq_nil_of_length_eq_zero (by omega)
  rw [hrest, List.append_nil]

theorem Lawful.told_stage {before after : List (Mark τ)} {t : τ} {stage : Stage}
    (hh : Lawful (before ++ .told t key stage :: after)) :
    (stage = .unattempted ∧ ∀ pre u found post, before = pre ++ .stored u key found :: post →
        ∃ v, .forgot v key ∈ post) ∨
      ∃ pre u b post, before = pre ++ .stored u key (stage, b) :: post ∧
        (∀ v found, .stored v key found ∉ post) ∧ ∀ v, .forgot v key ∉ post := by
  have htold : stage = ((standing key before).map Prod.fst).getD .unattempted := hh _ _ _ rfl
  cases hs : standing key before with
  | none =>
    refine .inl ⟨by simpa [hs] using htold, ?_⟩
    intro pre u found post he
    exact forgot_of_standing_eq_none hs he
  | some found =>
    obtain ⟨pre, u, post, he, hstored, hforgot⟩ := exists_of_standing hs
    obtain rfl : stage = found.1 := by simpa [hs] using htold
    exact .inr ⟨pre, u, found.2, post, he, hstored, hforgot⟩

namespace Threads

open Relation

variable [DecidableEq τ] {s : Threads τ}

/-- That threads share what setting up a tree comes to. -/
structure Shares (s : Threads τ) (key : Path) : Prop where
  /-- one thread at a time sets the tree up -/
  alone : ∀ t u, (s.phase t).IsProbing key → (s.phase u).IsProbing key → t = u
  /-- from where the tree is forgotten, or from the start, to where it is next forgotten -/
  once : ∀ before during after, s.history = before ++ during ++ after → Fresh key before →
    (∀ t, .forgot t key ∉ during) →
    (during.filterMap (Mark.probed? key)).length ≤ 1 ∧ ∀ t b, .returned t key b ∈ during →
      ∃ stage, during.filterMap (Mark.probed? key) = [(stage, b)]
  /-- setting the tree up changes nothing when it raises -/
  raised : ∀ t root settings lock s', s.phase t = .probing root settings key lock → Step t s s' →
    s'.phase t = .leaving .raised key lock → s'.registry = s.registry ∧ s'.history = s.history
  retry : ∀ t lock, s.phase t = .leaving .raised key lock → (∃ s', Step t s s') ∧
    ∀ s', Step t s s' → s'.registry = s.registry ∧ s'.registry.entries.get? key = none ∧
      s'.holder lock = none ∧
      ∀ u root settings lock', s'.phase u = .waiting (.get root settings) key lock' →
        lock' = lock ∧ SetsUpNext s' u key
  told : ∀ before t stage after, s.history = before ++ .told t key stage :: after →
    (stage = .unattempted ∧ ∀ pre u found post, before = pre ++ .stored u key found :: post →
        ∃ v, .forgot v key ∈ post) ∨
      ∃ pre u b post, before = pre ++ .stored u key (stage, b) :: post ∧
        (∀ v found, .stored v key found ∉ post) ∧ ∀ v, .forgot v key ∉ post

/-- However many threads there are and whatever they ask for, they share each tree. -/
theorem Reachable.shares (hs : Reachable s) (key : Path) : Shares s key where
  alone _ _ ht hu := hs.locked_and_recorded.1.probing_unique ht hu
  once before during after he hf hn := by
    have hlawful := hs.locked_and_recorded.2.lawful
    rw [he] at hlawful
    exact hlawful.one_setUp hf hn
  raised t root settings lock s' hp h hp' := by
    cases h with
    | raise => exact ⟨rfl, rfl⟩
    | _ => simp_all
  retry t lock ht := by
    obtain ⟨hl, hr⟩ := hs.locked_and_recorded
    exact ⟨⟨_, .release _ _ _ ht⟩, fun s' h => hr.retry hl ht h⟩
  told before t stage after he := by
    have hlawful := hs.locked_and_recorded.2.lawful
    rw [he] at hlawful
    exact hlawful.told_stage

/-- While one thread sets a tree up another waits for it; the first raises, the other sets the tree
up in its place, and the first is told how far that came. -/
theorem shares_of_two_threads :
    let key : Path := ⟨.root, []⟩
    ∃ (lock : Nat) (s₁ s₂ s₃ : Threads Bool), Step false s₁ s₂ ∧ ReflTransGen SomeStep s₂ s₃ ∧
      (s₁.phase false).IsProbing key ∧ s₁.phase true = .waiting (.get key none) key lock ∧
      s₂.phase false = .leaving .raised key lock ∧
      s₃.history =
        [.probed true key (.noMach, none), .stored true key (.noMach, none),
          .returned true key none, .told false key .noMach] ∧
      Shares s₁ key ∧ Shares s₂ key ∧ Shares s₃ key := by
  intro key
  have hq : Quiet (start true : Threads Bool) := Quiet.start true
  obtain ⟨lock, sa, ha⟩ := exists_waits false (.get key none) key hq.master
  obtain ⟨sb, hacquire, hb, hlocks, hrb, hhb⟩ :=
    (ha.busy hq).acquire (by rw [ha.holder, hq.holder])
  have hnew : sb.registry.entries.get? key = none := by
    rw [hrb, ha.registry]
    rfl
  have hprobing := hb.go (.probing key none key lock)
  -- the other thread chooses the lock that the tree has, and waits
  obtain ⟨lock', s₁, hw⟩ := exists_waits true (.get key none) key hprobing.master
  obtain rfl : lock = lock' := hw.kept lock (by simp [hlocks, ha.locks])
  have hphase : s₁.phase false = .probing key none key lock := by simp [hw.phase]
  have hraise : Step false s₁ (s₁.go false (.leaving .raised key lock)) :=
    .raise key none key lock hphase
  have hrelease : Step false (s₁.go false (.leaving .raised key lock)) _ :=
    .release .raised key lock (by simp)
  have hfree : Busy (((s₁.go false (.leaving .raised key lock)).go false .idle).setHolder lock
      none) true (.waiting (.get key none) key lock) lock := by
    refine ⟨by simp [hw.phase], ?_, hw.master, ?_⟩
    · rintro (_ | _) hu
      · simp
      · exact absurd rfl hu
    · intro l hl
      simp [hl, hw.holder, hb.holder l hl]
  obtain ⟨sc, hacquire', hc, -, hrc, hhc⟩ :=
    (hfree.note (Answer.raised.marks false key)).acquire (by simp)
  obtain ⟨sd, hsetUp, hqd, hrd, hhd⟩ := hc.setUp (.noMach, none) (by simp [hrc, hw.registry, hnew])
  obtain ⟨s₃, hstage, -, hhistory⟩ := hqd.stage false key key
  have hlater : ReflTransGen SomeStep (s₁.go false (.leaving .raised key lock)) s₃ :=
    ((((ReflTransGen.single ⟨false, hrelease⟩).tail ⟨true, hacquire'⟩).trans
      (run_of_steps hsetUp)).tail ⟨false, .call (.stage key) key (hqd.phase false)⟩).trans
        (run_of_steps hstage.steps)
  have hwaiting : Reachable sa :=
    ((Reachable.start true).step (.call (.get key none) key (hq.phase false))).run
      (run_of_steps ha.steps)
  have hboth := (hwaiting.step hacquire).step (.probe key none key lock hb.phase hnew)
  have hfirst : Reachable s₁ :=
    (hboth.step (.call (.get key none) key (hprobing.others true (by simp)))).run
      (run_of_steps hw.steps)
  have hsecond := hfirst.step hraise
  refine ⟨lock, s₁, _, s₃, hraise, hlater, ⟨key, none, lock, hphase⟩, by simp [hw.phase], by simp,
    ?_, hfirst.shares key, hsecond.shares key, (hsecond.run hlater).shares key⟩
  have hhistory₁ : s₁.history = [] := by
    simp [hw.history, hhb, ha.history, start]
  simp [hhistory, hhd, hhc, hrd, hrc, hhistory₁, Answer.marks, store, stageOf]

end Threads
end Registry
end MachTree

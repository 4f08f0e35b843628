import MachTree.Proofs.Flags
import MachTree.Proofs.PathSet
import MachTree.Proofs.Table

/-! What arguments come to, told from where they stand.  An argument is an operand if the one before
it takes an operand and is none itself.  The operands name forced includes, and all other arguments
are read on their own, so that a configuration is changed by three lists that do not depend on
it. -/
namespace MachTree
namespace Flags

variable {takes : String → Bool} {arg operand : String} {args rest : List String}

/-- Whether the argument at a position is an operand. -/
def isOperand (takes : String → Bool) (args : List String) : Nat → Bool
  | 0 => false
  | n + 1 => !isOperand takes args n && args[n]?.any takes

def argumentsAt (p : Nat → Bool) (args : List String) : List String :=
  (args.zipIdx.filter fun a => p a.2).map Prod.fst

def operands (takes : String → Bool) (args : List String) : List String :=
  argumentsAt (isOperand takes args) args

def nonOperands (takes : String → Bool) (args : List String) : List String :=
  argumentsAt (fun n => !isOperand takes args n) args

theorem argumentsAt_cons (p : Nat → Bool) (arg : String) (rest : List String) :
    argumentsAt p (arg :: rest) =
      (if p 0 then [arg] else []) ++ argumentsAt (fun n => p (n + 1)) rest := by
  have hshift : rest.zipIdx 1 = rest.zipIdx.map fun a => (a.1, a.2 + 1) := List.zipIdx_succ
  have hrest : ((rest.zipIdx 1).filter fun a => p a.2).map Prod.fst =
      argumentsAt (fun n => p (n + 1)) rest := by
    rw [hshift, List.filter_map, List.map_map]
    rfl
  rw [argumentsAt, List.zipIdx_cons, List.filter_cons]
  cases p 0 <;> simp [hrest]

theorem isOperand_cons (h : takes arg = false) (rest : List String) (n : Nat) :
    isOperand takes (arg :: rest) (n + 1) = isOperand takes rest n := by
  induction n with
  | zero => simp [isOperand, h]
  | succ n ih => rw [isOperand, ih, List.getElem?_cons_succ, ← isOperand]

theorem isOperand_cons_cons (h : takes arg = true) (operand : String) (rest : List String)
    (n : Nat) : isOperand takes (arg :: operand :: rest) (n + 2) = isOperand takes rest n := by
  induction n with
  | zero => simp [isOperand, h]
  | succ n ih =>
    rw [isOperand, ih, List.getElem?_cons_succ, List.getElem?_cons_succ, ← isOperand]

theorem operands_cons (h : takes arg = false) (rest : List String) :
    operands takes (arg :: rest) = operands takes rest := by
  rw [operands, argumentsAt_cons, funext (isOperand_cons h rest)]
  rfl

theorem nonOperands_cons (h : takes arg = false) (rest : List String) :
    nonOperands takes (arg :: rest) = arg :: nonOperands takes rest := by
  have hrest : (fun n => !isOperand takes (arg :: rest) (n + 1)) =
      fun n => !isOperand takes rest n :=
    funext fun n => congrArg Bool.not (isOperand_cons h rest n)
  rw [nonOperands, argumentsAt_cons, hrest]
  rfl

theorem operands_cons_cons (h : takes arg = true) (operand : String) (rest : List String) :
    operands takes (arg :: operand :: rest) = operand :: operands takes rest := by
  have hone : isOperand takes (arg :: operand :: rest) 1 = true := by simp [isOperand, h]
  rw [operands, argumentsAt_cons, argumentsAt_cons, if_pos hone,
    funext (isOperand_cons_cons h operand rest)]
  rfl

theorem nonOperands_cons_cons (h : takes arg = true) (operand : String) (rest : List String) :
    nonOperands takes (arg :: operand :: rest) = arg :: nonOperands takes rest := by
  have hone : (!isOperand takes (arg :: operand :: rest) 1) = false := by simp [isOperand, h]
  have hrest : (fun n => !isOperand takes (arg :: operand :: rest) (n + 1 + 1)) =
      fun n => !isOperand takes rest n :=
    funext fun n => congrArg Bool.not (isOperand_cons_cons h operand rest n)
  rw [nonOperands, argumentsAt_cons, argumentsAt_cons, hone, hrest]
  rfl

theorem filterMap_nonOperands_cons {β : Type} (h : takes arg = false) (f : String → Option β)
    (rest : List String) :
    (nonOperands takes (arg :: rest)).filterMap f =
      (f arg).toList ++ (nonOperands takes rest).filterMap f := by
  rw [nonOperands_cons h, List.filterMap_cons]
  cases f arg <;> rfl

variable (dialect : Dialect)

def Dialect.takesOperand (arg : String) : Bool :=
  match dialect.meaning arg with
  | .forced => true
  | _ => false

def Dialect.defined? (arg : String) : Option Define :=
  match dialect.meaning arg with
  | .define d => some d
  | _ => none

def Dialect.added? (arg : String) : Option Path :=
  match dialect.meaning arg with
  | .include p => some p
  | _ => none

def Dialect.definitions (args : List String) : List Define :=
  (nonOperands dialect.takesOperand args).filterMap dialect.defined?

def Dialect.directories (args : List String) : List Path :=
  (nonOperands dialect.takesOperand args).filterMap dialect.added?

def Dialect.headers (args : List String) : List Path :=
  (operands dialect.takesOperand args).map fun operand => dialect.resolve (Path.ofString operand)

variable {dialect}

theorem takesOperand_eq_true_iff :
    dialect.takesOperand arg = true ↔ dialect.meaning arg = .forced := by
  cases h : dialect.meaning arg <;> simp [Dialect.takesOperand, h]

theorem definitions_cons (h : dialect.takesOperand arg = false) (rest : List String) :
    dialect.definitions (arg :: rest) =
      (dialect.defined? arg).toList ++ dialect.definitions rest :=
  filterMap_nonOperands_cons h dialect.defined? rest

theorem directories_cons (h : dialect.takesOperand arg = false) (rest : List String) :
    dialect.directories (arg :: rest) =
      (dialect.added? arg).toList ++ dialect.directories rest :=
  filterMap_nonOperands_cons h dialect.added? rest

theorem headers_cons (h : dialect.takesOperand arg = false) (rest : List String) :
    dialect.headers (arg :: rest) = dialect.headers rest := by
  rw [Dialect.headers, operands_cons h, Dialect.headers]

section Operand

variable (hf : dialect.meaning arg = .forced)
include hf

theorem definitions_cons_cons (operand : String) (rest : List String) :
    dialect.definitions (arg :: operand :: rest) = dialect.definitions rest := by
  have hnone : dialect.defined? arg = none := by simp [Dialect.defined?, hf]
  rw [Dialect.definitions, nonOperands_cons_cons (takesOperand_eq_true_iff.mpr hf),
    List.filterMap_cons_none hnone, Dialect.definitions]

theorem directories_cons_cons (operand : String) (rest : List String) :
    dialect.directories (arg :: operand :: rest) = dialect.directories rest := by
  have hnone : dialect.added? arg = none := by simp [Dialect.added?, hf]
  rw [Dialect.directories, nonOperands_cons_cons (takesOperand_eq_true_iff.mpr hf),
    List.filterMap_cons_none hnone, Dialect.directories]

theorem headers_cons_cons (operand : String) (rest : List String) :
    dialect.headers (arg :: operand :: rest) =
      dialect.resolve (Path.ofString operand) :: dialect.headers rest := by
  rw [Dialect.headers, operands_cons_cons (takesOperand_eq_true_iff.mpr hf), List.map_cons,
    Dialect.headers]

end Operand

/-- The configuration with definitions, directories and forced includes after those it has. -/
def extend (config : CompileConfig) (ds : List Define) (ps qs : List Path) : CompileConfig :=
  { config with
    defines := config.defines.insertAll (ds.map fun d => (d.key, d.value))
    includes := config.includes.insertAll ps
    forcedIncludes := config.forcedIncludes.insertAll qs }

/-- An argument that takes no operand gives its own definition or directory, and then come those of
the others. -/
theorem extend_cons (h : dialect.takesOperand arg = false) (rest : List String)
    (config : CompileConfig) :
    extend config (dialect.definitions (arg :: rest)) (dialect.directories (arg :: rest))
        (dialect.headers (arg :: rest)) =
      extend (extend config (dialect.defined? arg).toList (dialect.added? arg).toList [])
        (dialect.definitions rest) (dialect.directories rest) (dialect.headers rest) := by
  rw [definitions_cons h, directories_cons h, headers_cons h]
  simp only [extend, Table.insertAll, PathSet.insertAll, List.map_append, List.foldl_append,
    List.foldl_nil]

/-- Arguments come to the three lists that are read off them. -/
theorem apply_eq_extend (args : List String) (config : CompileConfig) :
    apply dialect args config =
      extend config (dialect.definitions args) (dialect.directories args)
        (dialect.headers args) := by
  fun_induction apply dialect args config with
  | case1 config => rfl
  | case2 arg rest config d hd ih =>
    have htakes : dialect.takesOperand arg = false := by simp [Dialect.takesOperand, hd]
    rw [ih, extend_cons htakes, Dialect.defined?, Dialect.added?, hd]
    rfl
  | case3 arg rest config p hp ih =>
    have htakes : dialect.takesOperand arg = false := by simp [Dialect.takesOperand, hp]
    rw [ih, extend_cons htakes, Dialect.defined?, Dialect.added?, hp]
    rfl
  | case4 arg rest config hn ih =>
    have htakes : dialect.takesOperand arg = false := by simp [Dialect.takesOperand, hn]
    rw [ih, extend_cons htakes, Dialect.defined?, Dialect.added?, hn]
    rfl
  | case5 arg config hf =>
    -- a flag at the end has no operand, and it is read as nothing on its own
    have hlists : dialect.definitions [arg] = [] ∧ dialect.directories [arg] = [] ∧
        dialect.headers [arg] = [] := by
      refine ⟨?_, ?_, rfl⟩
      · show List.filterMap dialect.defined? [arg] = []
        simp [Dialect.defined?, hf]
      · show List.filterMap dialect.added? [arg] = []
        simp [Dialect.added?, hf]
    rw [hlists.1, hlists.2.1, hlists.2.2]
    rfl
  | case6 arg config hf operand rest ih =>
    rw [ih, definitions_cons_cons hf, directories_cons_cons hf, headers_cons_cons hf]
    rfl

theorem extend_twice (config : CompileConfig) (ds : List Define) (ps qs : List Path) :
    extend (extend config ds ps qs) ds ps qs = extend config ds ps qs := by
  simp only [extend, Table.insertAll_insertAll, PathSet.insertAll_insertAll]

/-- The same arguments read a second time change nothing: neither a value nor an order nor a
spelling, even where a macro is defined or a directory is named more than once among them. -/
theorem apply_twice (dialect : Dialect) (args : List String) (config : CompileConfig) :
    apply dialect args (apply dialect args config) = apply dialect args config := by
  rw [apply_eq_extend, apply_eq_extend, extend_twice]

end Flags
end MachTree

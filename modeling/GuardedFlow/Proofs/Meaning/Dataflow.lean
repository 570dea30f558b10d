import GuardedFlow.Proofs.Meaning.Basic

/-!
# What a statement depends on and what it changes

Variables are told apart by their numbers, so an environment has a value for every number. What a statement
computes depends on the variables that it uses (`Expr.read_congr`, `StmtKind.written_congr`), and the only
variable that it changes is the one that it defines (`Stmt.defs_eq`). `Stmt.uses` goes through a statement
with a list of the variables met so far, which `Stmt.uses_eq` relates to the variables at all places.
`Stmt.TracksVariables` states both for all interpretations of the parts of expressions.
-/

namespace GuardedFlow

variable {U : Type}

/-! ### Collecting variables -/

namespace Var

variable {vars more : List Var} {v : Var} {n : Nat}

/-- A variable is among others if its number is. -/
theorem any_same_iff : (vars.any v.same = true) ↔ v.id ∈ vars.map Var.id := by
  simp only [List.any_eq_true, same, beq_iff_eq, List.mem_map, eq_comm (a := v.id)]

/-- A variable whose number is there is not inserted again. -/
theorem insert_of_mem (h : v.id ∈ vars.map Var.id) : insert vars v = vars :=
  if_pos (any_same_iff.mpr h)

/-- A variable with a new number comes last. -/
theorem insert_of_notMem (h : v.id ∉ vars.map Var.id) : insert vars v = vars ++ [v] :=
  if_neg (mt any_same_iff.mp h)

/-- The numbers after an insertion. -/
theorem mem_map_id_insert : n ∈ (insert vars v).map Var.id ↔ n ∈ vars.map Var.id ∨ n = v.id := by
  by_cases hv : v.id ∈ vars.map Var.id
  · rw [insert_of_mem hv, iff_self_or]
    rintro rfl
    exact hv
  · rw [insert_of_notMem hv, List.map_append, List.mem_append, List.map_singleton, List.mem_singleton]

/-- Insertions keep the numbers different. -/
theorem nodup_insert (h : (vars.map Var.id).Nodup) : ((insert vars v).map Var.id).Nodup := by
  by_cases hv : v.id ∈ vars.map Var.id
  · rwa [insert_of_mem hv]
  · rw [insert_of_notMem hv, List.map_append, List.map_singleton, ← List.concat_eq_append]
    exact h.concat hv

/-- Inserting variables adds their numbers. -/
theorem mem_map_id_foldl_insert :
    n ∈ (more.foldl insert vars).map Var.id ↔ n ∈ vars.map Var.id ∨ n ∈ more.map Var.id := by
  induction more generalizing vars with
  | nil => simp
  | cons v more ih => rw [List.foldl_cons, ih, mem_map_id_insert, or_assoc, List.map_cons, List.mem_cons]

/-- Inserting variables never adds a number twice. -/
theorem nodup_foldl_insert (h : (vars.map Var.id).Nodup) :
    ((more.foldl insert vars).map Var.id).Nodup := by
  induction more generalizing vars with
  | nil => exact h
  | cons v more ih => exact ih (nodup_insert h)

end Var

namespace Expr

mutual

/-- The variables of an expression are collected place by place. -/
theorem collect_eq (vars : List Var) : ∀ e : Expr, e.collect vars = e.occurrences.foldl Var.insert vars
  | var _ | lit _ | alloc _ => rfl
  | unary _ operand => collect_eq vars operand
  | binary _ left right => by
    rw [collect, occurrences, List.foldl_append, collect_eq vars left, collect_eq _ right]
  | cell map keys => collectAll_eq (Var.insert vars map) keys

/-- Collecting over a list of expressions inserts the occurrences in order. -/
theorem collectAll_eq (vars : List Var) :
    ∀ es : List Expr, collectAll vars es = (occurrencesAll es).foldl Var.insert vars
  | [] => rfl
  | e :: rest => by
    rw [collectAll, occurrencesAll, List.foldl_append, collect_eq vars e, collectAll_eq _ rest]

end

end Expr

/-- Collecting over an address inserts its occurrences in order. -/
theorem StmtKind.collectAddress_eq (vars : List Var) (target : Expr) :
    collectAddress vars target = (addressOccurrences target).foldl Var.insert vars := by
  cases target with
  | cell map keys => exact Expr.collectAll_eq _ keys
  | _ => rfl

/-- The variables that a statement uses are those at the places where it reads. -/
theorem Stmt.uses_eq (s : Stmt) : s.uses = s.kind.occurrences.foldl Var.insert [] := by
  obtain ⟨location, kind⟩ := s
  cases kind with
  | assign target value =>
    rw [StmtKind.occurrences, List.foldl_append, ← Expr.collect_eq]
    exact StmtKind.collectAddress_eq _ target
  | assert condition => exact Expr.collect_eq [] condition
  | assume condition => exact Expr.collect_eq [] condition
  | call callee args result =>
    rw [StmtKind.occurrences, List.foldl_append, ← Expr.collectAll_eq]
    cases result with
    | none => rfl
    | some target => exact StmtKind.collectAddress_eq _ target

/-! ### Environments -/

/-- The values of variables by their numbers. -/
abbrev Environment (U : Type) := Nat → U

/-- Two environments have the same values for some variables. -/
def Environment.Agree (vars : List Var) (ρ ρ' : Environment U) : Prop := ∀ v ∈ vars, ρ v.id = ρ' v.id

/-- Where a value is stored: in a variable, or in the slot of a heap map at some keys. -/
inductive Address (U : Type) where
  | whole (v : Var)
  | slot (map : Var) (keys : List U)

/-- The variable that is changed by a store. -/
def Address.owner : Address U → Var
  | whole v => v
  | slot map _ => map

namespace Meaning

variable (M : Meaning U)

mutual

/-- The value of an expression in an environment. -/
def read (ρ : Environment U) : Expr → U
  | .var v => ρ v.id
  | .lit constant => M.datum constant.denoted
  | .unary op operand => M.unary op (read ρ operand)
  | .binary op left right => M.binary op (read ρ left) (read ρ right)
  | .cell map keys => M.select (ρ map.id) (readAll ρ keys)
  | .alloc ty => M.alloc ty

/-- The values of a list of expressions in an environment. -/
def readAll (ρ : Environment U) : List Expr → List U
  | [] => []
  | e :: rest => read ρ e :: readAll ρ rest

end

/-- The address of an expression that can be assigned to. -/
def address (ρ : Environment U) : Expr → Option (Address U)
  | .var v => some (.whole v)
  | .cell map keys => some (.slot map (M.readAll ρ keys))
  | _ => none

/-- The value that the owner of an address has after a store; a map is read and one of its slots updated. -/
def content (ρ : Environment U) (u : U) : Address U → U
  | .whole _ => u
  | .slot map keys => M.update (ρ map.id) keys u

/-- The variable that a statement stores to, and the value that it gets; a call stores its result. -/
def written (ρ : Environment U) (result : U) : StmtKind → Option (Var × U)
  | .assign target e => (M.address ρ target).map fun a => (a.owner, M.content ρ (M.read ρ e) a)
  | .call _ _ target => (target.bind (M.address ρ)).map fun a => (a.owner, M.content ρ result a)
  | .assert _ | .assume _ => none

/-- The environment after a statement, of which a call has the given result. -/
def perform (ρ : Environment U) (result : U) (kind : StmtKind) : Environment U :=
  match M.written ρ result kind with
  | some (v, u) => Function.update ρ v.id u
  | none => ρ

end Meaning

/-! ### What is read -/

variable {M : Meaning U} {ρ ρ' : Environment U} {vars : List Var}

/-- Environments that agree on more variables agree on fewer. -/
theorem Environment.Agree.mono {more : List Var} (h : Agree more ρ ρ') (hsub : vars ⊆ more) :
    Agree vars ρ ρ' := fun v hv => h v (hsub hv)

/-- Agreement on collected variables is agreement at all places. -/
theorem Environment.agree_foldl_insert (h : Agree (vars.foldl Var.insert []) ρ ρ') : Agree vars ρ ρ' := by
  intro v hv
  have hmem : v.id ∈ (vars.foldl Var.insert []).map Var.id :=
    Var.mem_map_id_foldl_insert.mpr (.inr (List.mem_map_of_mem hv))
  obtain ⟨w, hw, hid⟩ := List.mem_map.mp hmem
  rw [← hid]
  exact h w hw

namespace Expr

mutual

/-- The value of an expression depends on the variables at its places. -/
theorem read_congr : ∀ e : Expr, Environment.Agree e.occurrences ρ ρ' → M.read ρ e = M.read ρ' e
  | var v, h => h v List.mem_cons_self
  | lit _, _ | alloc _, _ => rfl
  | unary op operand, h => congrArg (M.unary op) (read_congr operand h)
  | binary op left right, h =>
    congrArg₂ (M.binary op) (read_congr left (h.mono (List.subset_append_left ..)))
      (read_congr right (h.mono (List.subset_append_right ..)))
  | cell map keys, h =>
    congrArg₂ M.select (h map List.mem_cons_self) (readAll_congr keys (h.mono (List.subset_cons_self ..)))

/-- Expressions of a list are read alike in environments that agree on their variables. -/
theorem readAll_congr :
    ∀ es : List Expr, Environment.Agree (occurrencesAll es) ρ ρ' → M.readAll ρ es = M.readAll ρ' es
  | [], _ => rfl
  | e :: rest, h =>
    congrArg₂ List.cons (read_congr e (h.mono (List.subset_append_left ..)))
      (readAll_congr rest (h.mono (List.subset_append_right ..)))

end

end Expr

namespace Meaning

variable {p : Program} {σ : Store U}

mutual

/-- An expression has the value that it has in a store, if the store has the values of the environment. -/
theorem read_eq_value : ∀ e : Expr, (∀ v ∈ e.occurrences, ρ v.id = σ.get p v) → M.read ρ e = M.value p σ e
  | .var v, h => h v List.mem_cons_self
  | .lit _, _ | .alloc _, _ => rfl
  | .unary op operand, h => congrArg (M.unary op) (read_eq_value operand h)
  | .binary op left right, h =>
    congrArg₂ (M.binary op) (read_eq_value left fun v hv => h v (List.mem_append_left _ hv))
      (read_eq_value right fun v hv => h v (List.mem_append_right _ hv))
  | .cell map keys, h =>
    congrArg₂ M.select (h map List.mem_cons_self)
      (readAll_eq_values keys fun v hv => h v (List.mem_cons_of_mem map hv))

/-- Expressions of a list are read as their values in an environment that has those of the variables. -/
theorem readAll_eq_values : ∀ es : List Expr, (∀ v ∈ Expr.occurrencesAll es, ρ v.id = σ.get p v) →
    M.readAll ρ es = M.values p σ es
  | [], _ => rfl
  | e :: rest, h =>
    congrArg₂ List.cons (read_eq_value e fun v hv => h v (List.mem_append_left _ hv))
      (readAll_eq_values rest fun v hv => h v (List.mem_append_right _ hv))

end

end Meaning

namespace StmtKind

open Meaning

variable {target : Expr}

/-- The keys of a cell that is stored to are read. -/
theorem address_congr (h : Environment.Agree (addressOccurrences target) ρ ρ') :
    M.address ρ target = M.address ρ' target := by
  cases target with
  | cell map keys =>
    have hkeys : M.readAll ρ keys = M.readAll ρ' keys :=
      Expr.readAll_congr keys (h.mono (List.subset_cons_self ..))
    rw [address, address, hkeys]
  | _ => rfl

/-- The map of a cell that is stored to is read. -/
theorem content_congr (h : Environment.Agree (addressOccurrences target) ρ ρ') {a : Address U}
    (ha : M.address ρ target = some a) (u : U) : M.content ρ u a = M.content ρ' u a := by
  cases target with
  | var v =>
    cases ha
    rfl
  | cell map keys =>
    cases ha
    exact congrArg (M.update · _ u) (h map List.mem_cons_self)
  | _ => cases ha

/-- What a store changes depends on the variables that are read for the address. -/
theorem store_congr (h : Environment.Agree (addressOccurrences target) ρ ρ') (u : U) :
    (M.address ρ target).map (fun a => (a.owner, M.content ρ u a)) =
      (M.address ρ' target).map fun a => (a.owner, M.content ρ' u a) := by
  rw [← address_congr h]
  apply Option.map_congr
  intro a ha
  rw [content_congr h ha]

/-- What a statement stores depends on the variables at its places. -/
theorem written_congr (kind : StmtKind) (h : Environment.Agree kind.occurrences ρ ρ') (result : U) :
    M.written ρ result kind = M.written ρ' result kind := by
  cases kind with
  | assign target e =>
    rw [written, written, Expr.read_congr e (h.mono (List.subset_append_left ..))]
    exact store_congr (h.mono (List.subset_append_right ..)) _
  | call callee args target =>
    cases target with
    | none => rfl
    | some target => exact store_congr (h.mono (List.subset_append_right ..)) result
  | _ => rfl

end StmtKind

/-! ### What is changed -/

/-- A statement defines the variable that it stores to. -/
theorem Stmt.defs_eq (M : Meaning U) (s : Stmt) (ρ : Environment U) (result : U) :
    s.defs = ((M.written ρ result s.kind).map Prod.fst).toList := by
  obtain ⟨location, kind⟩ := s
  cases kind with
  | assign target e => cases target <;> rfl
  | call callee args target =>
    cases target with
    | none => rfl
    | some target => cases target <;> rfl
  | _ => rfl

/-- All other variables have the values that they had. -/
theorem Meaning.perform_frame {s : Stmt} {n : Nat} (hn : n ∉ s.defs.map Var.id) (ρ : Environment U)
    (result : U) : M.perform ρ result s.kind n = ρ n := by
  rw [s.defs_eq M ρ result] at hn
  rw [perform]
  cases hwritten : M.written ρ result s.kind with
  | none => rfl
  | some stored =>
    rw [hwritten] at hn
    exact Function.update_of_ne (by simpa using hn) _ _

/-- The variables of a statement account for what it depends on and for what it changes. -/
structure Stmt.TracksVariables (M : Meaning U) (s : Stmt) : Prop where
  /-- A condition has one value in environments that agree on the used variables. -/
  condition : ∀ ρ ρ', Environment.Agree s.uses ρ ρ' →
    ∀ e, s.kind = .assert e ∨ s.kind = .assume e → M.read ρ e = M.read ρ' e
  /-- A call has the same arguments, and the same address for its result. -/
  call : ∀ ρ ρ', Environment.Agree s.uses ρ ρ' →
    ∀ callee args result, s.kind = .call callee args result →
      M.readAll ρ args = M.readAll ρ' args ∧ result.map (M.address ρ) = result.map (M.address ρ')
  /-- The variable that is stored to is the defined one. -/
  owner : ∀ ρ result, s.defs = ((M.written ρ result s.kind).map Prod.fst).toList
  /-- The same new value is stored in the same variable. -/
  written : ∀ ρ ρ', Environment.Agree s.uses ρ ρ' →
    ∀ result, M.written ρ result s.kind = M.written ρ' result s.kind
  /-- Variables that are not defined do not change. -/
  frame : ∀ ρ result, ∀ n ∉ s.defs.map Var.id, M.perform ρ result s.kind n = ρ n
  /-- No variable is listed twice. -/
  nodup_uses : (s.uses.map Var.id).Nodup
  nodup_defs : (s.defs.map Var.id).Nodup
  nodup_vars : (s.vars.map Var.id).Nodup
  /-- The variables of a statement are those that it uses or defines. -/
  mem_vars : ∀ n, n ∈ s.vars.map Var.id ↔ n ∈ s.uses.map Var.id ∨ n ∈ s.defs.map Var.id

/-- Environments that agree on the variables that a statement uses agree on those that occur in it. -/
theorem Stmt.agree_occurrences {s : Stmt} (h : Environment.Agree s.uses ρ ρ') :
    Environment.Agree s.kind.occurrences ρ ρ' := by
  rw [uses_eq] at h
  exact Environment.agree_foldl_insert h

/-- The variables that a statement uses have different numbers. -/
theorem Stmt.nodup_map_id_uses (s : Stmt) : (s.uses.map Var.id).Nodup := by
  rw [uses_eq]
  exact Var.nodup_foldl_insert List.nodup_nil

/-- A statement stores to one variable at most. -/
theorem Stmt.nodup_map_id_defs (s : Stmt) : (s.defs.map Var.id).Nodup := by
  unfold defs
  split
  · exact List.nodup_singleton _
  · exact List.nodup_singleton _
  · exact List.nodup_nil

/-- Statements track variables, whatever the parts of expressions mean. -/
theorem Stmt.tracksVariables (M : Meaning U) (s : Stmt) : s.TracksVariables M where
  condition ρ ρ' h e hkind := by
    have hagree := agree_occurrences h
    apply Expr.read_congr
    cases hkind with
    | inl hassert => rwa [hassert] at hagree
    | inr hassume => rwa [hassume] at hagree
  call ρ ρ' h callee args result hkind := by
    have hagree := agree_occurrences h
    rw [hkind, StmtKind.occurrences] at hagree
    constructor
    · exact Expr.readAll_congr args (hagree.mono (List.subset_append_left ..))
    · cases result with
      | none => rfl
      | some target =>
        exact congrArg some (StmtKind.address_congr (hagree.mono (List.subset_append_right ..)))
  owner ρ result := s.defs_eq M ρ result
  written ρ ρ' h result := s.kind.written_congr (agree_occurrences h) result
  frame ρ result n hn := Meaning.perform_frame hn ρ result
  nodup_uses := s.nodup_map_id_uses
  nodup_defs := s.nodup_map_id_defs
  nodup_vars := Var.nodup_foldl_insert s.nodup_map_id_uses
  mem_vars n := Var.mem_map_id_foldl_insert

end GuardedFlow

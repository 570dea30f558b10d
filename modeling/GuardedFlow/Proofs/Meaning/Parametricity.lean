import GuardedFlow.Proofs.Meaning.Evaluation

/-!
# Evaluation is parametric

Evaluation uses the parts of a meaning and nothing else. So it maps related scopes and globals to related
values and globals, for every relation that the parts of two meanings respect:
`Meaning.Related.evaluate`. In particular, evaluation for several stores side by side is the evaluation
for each of them.
-/

namespace GuardedFlow

variable {U V α β γ δ : Type}

/-- The parts of two meanings respect a relation of values and one of globals. -/
structure Meaning.Related (R : U → V → Prop) (G : Globals U → Globals V → Prop) (M : Meaning U)
    (N : Meaning V) : Prop where
  datum : ∀ value, R (M.datum value) (N.datum value)
  unary : ∀ op u v, R u v → R (M.unary op u) (N.unary op v)
  binary : ∀ op u v u' v', R u v → R u' v' → R (M.binary op u u') (N.binary op v v')
  alloc : ∀ ty, R (M.alloc ty) (N.alloc ty)
  select : ∀ map map' us vs, R map map' → List.Forall₂ R us vs → R (M.select map us) (N.select map' vs)
  global : ∀ g h name, G g h → R (g name) (h name)
  call : ∀ signature us vs g h, List.Forall₂ R us vs → G g h →
    R (M.call signature us g).1 (N.call signature vs h).1 ∧
      G (M.call signature us g).2 (N.call signature vs h).2

/-- Related lists have related entries. -/
theorem rel_getElem? {R : α → β → Prop} {as : List α} {bs : List β} (h : List.Forall₂ R as bs)
    (i : Nat) : Option.Rel R as[i]? bs[i]? := by
  induction h generalizing i with
  | nil => exact .none
  | cons hab _ ih =>
    cases i with
    | zero => exact .some hab
    | succ i => simpa using ih i

/-- What operands refer to is related. -/
structure Scope.Related (R : U → V → Prop) (scope : Scope U) (scope' : Scope V) : Prop where
  body : scope.body = scope'.body
  typeField : scope.typeField = scope'.typeField
  lengthField : scope.lengthField = scope'.lengthField
  slots : List.Forall₂ R scope.slots scope'.slots
  params : List.Forall₂ R scope.params scope'.params
  receiver : Option.Rel R scope.receiver scope'.receiver
  caught : Option.Rel R scope.caught scope'.caught

/-- The scopes of one lowering are related in stores whose locals are. -/
theorem LoweringState.scope_related {R : U → V → Prop} (t : LoweringState) {σ : Store U} {τ : Store V}
    (h : ∀ id, R (σ.locals id) (τ.locals id)) : (t.scope σ).Related R (t.scope τ) where
  body := rfl
  typeField := rfl
  lengthField := rfl
  slots := by simp [LoweringState.scope, List.forall₂_map_left_iff, List.forall₂_map_right_iff, h]
  params := by simp [LoweringState.scope, List.forall₂_map_left_iff, List.forall₂_map_right_iff, h]
  receiver := by
    cases hv : t.draft.receiver <;> simp only [LoweringState.scope, hv, Option.map]
    · exact .none
    · exact .some (h _)
  caught := by
    cases hv : t.draft.exception <;> simp only [LoweringState.scope, hv, Option.map]
    · exact .none
    · exact .some (h _)

/-- Evaluations lead from related globals to related results and globals, or both have no value. -/
def Evaluation.Related (G : Globals U → Globals V → Prop) (P : α → β → Prop) (m : Evaluation U α)
    (n : Evaluation V β) : Prop :=
  ∀ g h, G g h → Option.Rel (fun a b => P a.1 b.1 ∧ G a.2 b.2) (m g) (n h)

namespace Evaluation.Related

variable {G : Globals U → Globals V → Prop} {P : α → β → Prop} {Q : γ → δ → Prop}

/-- Related answers. -/
theorem pure {a : α} {b : β} (h : P a b) : Related G P (pure a) (pure b) := fun _ _ hg => .some ⟨h, hg⟩

/-- Evaluations that fail are related. -/
theorem failure : Related G P failure failure := fun _ _ _ => .none

/-- Looking up related entries. -/
theorem lookup {a? : Option α} {b? : Option β} (h : Option.Rel P a? b?) :
    Related G P (lookup a?) (lookup b?) := fun _ _ hg => by
  cases h with
  | some h => exact .some ⟨h, hg⟩
  | none => exact .none

/-- Related evaluations one after another. -/
theorem bind {m : Evaluation U α} {n : Evaluation V β} {f : α → Evaluation U γ} {k : β → Evaluation V δ}
    (hm : Related G P m n) (hf : ∀ a b, P a b → Related G Q (f a) (k b)) :
    Related G Q (m >>= f) (n >>= k) := fun g h hg => by
  have hgh := hm g h hg
  rw [Evaluation.bind_run, Evaluation.bind_run]
  generalize m g = r at hgh ⊢
  generalize n h = r' at hgh ⊢
  cases hgh with
  | none => exact .none
  | some hab => exact hf _ _ hab.1 _ _ hab.2

/-- The same question is asked about the declarations. -/
theorem lookup_bind (a? : Option α) {f : α → Evaluation U γ} {k : α → Evaluation V δ}
    (hf : ∀ a, Related G Q (f a) (k a)) :
    Related G Q (Evaluation.lookup a? >>= f) (Evaluation.lookup a? >>= k) :=
  (lookup (P := Eq) (by cases a? <;> constructor; rfl)).bind fun a _ hab => hab ▸ hf a

end Evaluation.Related

namespace Meaning

open Evaluation (Related)

variable {R : U → V → Prop} {G : Globals U → Globals V → Prop} {M : Meaning U} {N : Meaning V}

/-- Globals are read from related environments. -/
theorem Related.readGlobal (h : M.Related R G N) (name : String) :
    Evaluation.Related G R (Evaluation.readGlobal name) (Evaluation.readGlobal name) :=
  fun g g' hg => .some ⟨h.global g g' name hg, hg⟩

/-- Cells are read at related keys. -/
theorem Related.readCell (h : M.Related R G N) (map : String) {us : List U} {vs : List V}
    (hkeys : List.Forall₂ R us vs) : Evaluation.Related G R (M.readCell map us) (N.readCell map vs) :=
  (h.readGlobal map).bind fun _ _ hmap => .pure (h.select _ _ _ _ hmap hkeys)

/-- Methods are invoked on related arguments. -/
theorem Related.invoke (h : M.Related R G N) (signature : String) {us : List U} {vs : List V}
    (hargs : List.Forall₂ R us vs) :
    Evaluation.Related G R (M.invoke signature us) (N.invoke signature vs) :=
  fun g g' hg => .some (h.call signature us vs g g' hargs hg)

section Calls

variable {call : Call (Evaluation U U)} {call' : Call (Evaluation V V)}

/-- Arguments and a receiver are evaluated alike. -/
theorem arguments_related {base : Option (Evaluation U U)} {base' : Option (Evaluation V V)}
    {args : List (Evaluation U U)} {args' : List (Evaluation V V)}
    (hbase : Option.Rel (Evaluation.Related G R) base base')
    (hargs : List.Forall₂ (Evaluation.Related G R) args args') :
    Evaluation.Related G (List.Forall₂ R) (arguments base args) (arguments base' args') := by
  have hall : Evaluation.Related G (List.Forall₂ R) (args.mapM id) (args'.mapM id) := by
    induction hargs with
    | nil => exact .pure .nil
    | cons harg _ ih =>
      rw [List.mapM_cons, List.mapM_cons]
      exact harg.bind fun _ _ hu => ih.bind fun _ _ hus => .pure (.cons hu hus)
  refine hall.bind fun us vs hus => ?_
  cases hbase with
  | none => exact .pure hus
  | some hbase => exact hbase.bind fun _ _ hu => .pure (.cons hu hus)

/-- The receiver is evaluated alike, or missing in both calls. -/
theorem receiver_related (h : call.Rel (Evaluation.Related G R) call') :
    Evaluation.Related G R (receiver call) (receiver call') := by
  obtain ⟨_, _, base, _⟩ := call
  obtain ⟨_, _, base', _⟩ := call'
  cases h.base with
  | none => exact .failure
  | some hbase => exact hbase

/-- The only argument is evaluated alike, or both calls have another number of them. -/
theorem onlyArgument_related (h : call.Rel (Evaluation.Related G R) call') :
    Evaluation.Related G R (onlyArgument call) (onlyArgument call') := by
  obtain ⟨_, _, _, args⟩ := call
  obtain ⟨_, _, _, args'⟩ := call'
  cases h.args with
  | nil => exact .failure
  | cons harg hrest =>
    cases hrest with
    | nil => exact harg
    | cons _ _ => exact .failure

variable {config : Config} {typeField : FieldSig}

/-- Matched calls are evaluated alike. -/
theorem Related.idiom (hM : M.Related R G N) (h : call.Rel (Evaluation.Related G R) call')
    (kind : IdiomKind) :
    Evaluation.Related G R (M.idiom config typeField kind call) (N.idiom config typeField kind call') := by
  have hreceiver := receiver_related h
  have hargument := onlyArgument_related h
  cases kind with
  | assertion | precondition | exit | testFailure => exact .failure
  | stringLength => exact hreceiver.bind fun _ _ hu => hM.readCell _ (.cons hu .nil)
  | isAssignableFrom =>
    exact hreceiver.bind fun _ _ hu => hargument.bind fun _ _ hk => .pure (hM.binary _ _ _ _ _ hk hu)
  | getClass => exact hreceiver.bind fun _ _ hu => hM.readCell _ (.cons hu .nil)
  | cast => exact hreceiver.bind fun _ _ _ => hargument
  | isInstance =>
    exact hreceiver.bind fun _ _ hu => hargument.bind fun _ _ hk =>
      (hM.readCell _ (.cons hk .nil)).bind fun _ _ htag => .pure (hM.binary _ _ _ _ _ htag hu)

/-- Calls have related results. -/
theorem Related.callResult (hM : M.Related R G N) (h : call.Rel (Evaluation.Related G R) call') :
    Evaluation.Related G R (M.callResult config typeField call) (N.callResult config typeField call') := by
  have hreceived : Option.Rel (Evaluation.Related G R)
      (if call.kind.hasReceiver then some (receiver call) else none)
      (if call.kind.hasReceiver then some (receiver call') else none) := by
    split
    · exact .some (receiver_related h)
    · exact .none
  unfold Meaning.callResult
  rw [← h.kind, ← h.method]
  split
  · exact (arguments_related h.base h.args).bind fun _ _ => hM.invoke _
  · split
    · exact hM.idiom h _
    · exact (arguments_related hreceived h.args).bind fun _ _ => hM.invoke _

end Calls

variable {scope : Scope U} {scope' : Scope V}

mutual

/-- Related scopes and globals give an operand related values. -/
theorem Related.evaluate (hM : M.Related R G N) (config : Config) (hscope : scope.Related R scope') :
    ∀ v : Value,
      Evaluation.Related G R (M.evaluate config scope v) (N.evaluate config scope' v)
  | .slot index => .lookup (rel_getElem? hscope.slots index)
  | .const _ => .pure (hM.datum _)
  | .unary op v => (hM.evaluate config hscope v).bind fun _ _ hu => .pure (hM.unary op _ _ hu)
  | .binary op v w => (hM.evaluate config hscope v).bind fun _ _ hu =>
      (hM.evaluate config hscope w).bind fun _ _ hu' => .pure (hM.binary op _ _ _ _ hu hu')
  | .cast _ v => hM.evaluate config hscope v
  | .instanceOf _ v => by
    simp only [Meaning.evaluate, hscope.typeField]
    exact (hM.evaluate config hscope v).bind fun _ _ hu =>
      (hM.readCell _ (.cons hu .nil)).bind fun _ _ htag => .pure (hM.binary _ _ _ _ _ htag (hM.datum _))
  | .length v => by
    simp only [Meaning.evaluate, hscope.body, hscope.lengthField]
    exact .lookup_bind _ fun _ => (hM.evaluate config hscope v).bind fun _ _ hu =>
      hM.readCell _ (.cons hu .nil)
  | .new _ | .newMultiArray .. | .newArray .. => .pure (hM.alloc _)
  | .field v _ => (hM.evaluate config hscope v).bind fun _ _ hu => hM.readCell _ (.cons hu .nil)
  | .staticField _ => hM.readGlobal _
  | .element v w => by
    simp only [Meaning.evaluate, hscope.body]
    exact .lookup_bind _ fun _ => (hM.evaluate config hscope v).bind fun _ _ hu =>
      (hM.evaluate config hscope w).bind fun _ _ hk => hM.readCell _ (.cons hu (.cons hk .nil))
  | .call kind method base args => by
    simp only [Meaning.evaluate, hscope.typeField]
    exact hM.callResult ⟨rfl, rfl, hM.evaluate? config hscope base, hM.evaluateAll config hscope args⟩
  | .parameter index _ => .lookup (rel_getElem? hscope.params index)
  | .receiver _ => .lookup hscope.receiver
  | .caughtException _ => .lookup hscope.caught

/-- The operands of a list are evaluated alike, one by one. -/
theorem Related.evaluateAll (hM : M.Related R G N) (config : Config) (hscope : scope.Related R scope') :
    ∀ vs : List Value,
      List.Forall₂ (Evaluation.Related G R) (M.evaluateAll config scope vs)
        (N.evaluateAll config scope' vs)
  | [] => .nil
  | v :: rest => .cons (hM.evaluate config hscope v) (hM.evaluateAll config hscope rest)

/-- An operand that may be absent is evaluated alike. -/
theorem Related.evaluate? (hM : M.Related R G N) (config : Config) (hscope : scope.Related R scope') :
    ∀ v? : Option Value,
      Option.Rel (Evaluation.Related G R) (M.evaluate? config scope v?) (N.evaluate? config scope' v?)
  | none => .none
  | some v => .some (hM.evaluate config hscope v)

end

end Meaning

end GuardedFlow

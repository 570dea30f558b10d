import GuardedFlow.Proofs.Lowering.Findings
import GuardedFlow.Proofs.Program.Regions
import GuardedFlow.Proofs.Program.Sessions

/-!
# Signatures as keys

A program keeps its methods under their printed signatures and names array classes after their printed
types. Over plain types, whose class names contain no delimiter and are no keywords, printing is
injective: delimiters show where the parts of a signature end. `Session.signatures_identify` concludes that
a session with plain references never gets another method or array class than the one it asked for.
-/

namespace GuardedFlow

/-! ### Plain types -/

/-- The characters that printed types and signatures use around names. -/
def delimiters : List Char := ['<', '>', ':', '(', ')', ',', '[', ']', ' ']

/-- A name that a class can have: it is not empty, it contains no delimiter, and it is no keyword. -/
structure IsClassName (name : String) : Prop where
  nonempty : name ≠ ""
  undelimited : ∀ c ∈ name.toList, c ∉ delimiters
  noKeyword : ∀ p : Prim, name ≠ p.text

/-- A type without maps, of classes that are named properly. -/
def Ty.Plain : Ty → Prop
  | prim _ => True
  | named name => IsClassName name
  | array element => element.Plain
  | map .. => False

/-- A method of a class that is named properly, between plain types, whose own name contains no
parenthesis and no space. -/
structure MethodSig.Plain (sig : MethodSig) : Prop where
  owner : IsClassName sig.owner
  name : '(' ∉ sig.name.toList ∧ ' ' ∉ sig.name.toList
  params : ∀ ty ∈ sig.params, ty.Plain
  result : sig.result.Plain

/-- Whether a name contains a delimiter is tested one character after another. -/
theorem undelimited_of_all {name : String} (h : name.toList.all fun c => !delimiters.contains c) :
    ∀ c ∈ name.toList, c ∉ delimiters := by
  simpa using h

namespace Prim

/-- Different primitive types have different names. -/
theorem text_injective : Function.Injective text := by
  intro p q h
  cases p <;> cases q <;> first | rfl | (revert h; decide)

/-- The names of primitive types have no delimiters. -/
theorem undelimited (p : Prim) : ∀ c ∈ p.text.toList, c ∉ delimiters :=
  undelimited_of_all (by cases p <;> decide)

/-- The names of primitive types are not empty. -/
theorem text_ne_empty (p : Prim) : p.text ≠ "" := by
  cases p <;> decide

/-- The types without parts, whose texts are the keywords. -/
def all : List Prim :=
  [void, boolean, byte, char, short, int, long, float, double, null]

/-- Every primitive type is in the list. -/
theorem mem_all (p : Prim) : p ∈ all := by
  cases p <;> decide

end Prim

/-- Names of classes can be recognized. -/
instance (name : String) : Decidable (IsClassName name) :=
  decidable_of_iff (name ≠ "" ∧ (name.toList.all fun c => !delimiters.contains c) = true ∧
      ∀ p ∈ Prim.all, name ≠ p.text)
    ⟨fun h => ⟨h.1, undelimited_of_all h.2.1, fun p => h.2.2 p p.mem_all⟩,
      fun h => ⟨h.nonempty, by simpa using h.undelimited, fun p _ => h.noKeyword p⟩⟩

/-- No name ends as the printed form of an array does. -/
theorem ne_array_text {name : String} (h : ∀ c ∈ name.toList, c ∉ delimiters) (element : Ty) :
    name ≠ (Ty.array element).text := by
  rintro rfl
  exact h ']' (by simp [Ty.text]) (by decide)

namespace Ty.Plain

/-- The printed form of a plain type has no delimiters but brackets. -/
theorem not_mem_text {c : Char} (hc : c ∈ delimiters) (hopen : c ≠ '[') (hclose : c ≠ ']') :
    ∀ {ty : Ty}, ty.Plain → c ∉ ty.text.toList
  | prim p, _ => fun hmem => p.undelimited c hmem hc
  | named _, h => fun hmem => h.undelimited c hmem hc
  | array element, h => by
    have helement : c ∉ element.text.toList := not_mem_text hc hopen hclose h
    simpa [text, hopen, hclose] using helement

/-- The text of a plain type is not empty. -/
theorem text_ne_empty : ∀ {ty : Ty}, ty.Plain → ty.text ≠ ""
  | prim p, _ => p.text_ne_empty
  | named _, h => h.nonempty
  | array element, _ => by simp [text]

/-- Plain types are printed differently. -/
theorem text_inj : ∀ {ty other : Ty}, ty.Plain → other.Plain → ty.text = other.text → ty = other
  | prim _, prim _, _, _, h => congrArg prim (Prim.text_injective h)
  | prim p, named _, _, hother, h => absurd h.symm (hother.noKeyword p)
  | named _, prim q, hty, _, h => absurd h (hty.noKeyword q)
  | named _, named _, _, _, h => congrArg named h
  | prim p, array element, _, _, h => absurd h (ne_array_text p.undelimited element)
  | array element, prim q, _, _, h => absurd h.symm (ne_array_text q.undelimited element)
  | named _, array element, hty, _, h => absurd h (ne_array_text hty.undelimited element)
  | array element, named _, _, hother, h => absurd h.symm (ne_array_text hother.undelimited element)
  | array _, array _, hty, hother, h =>
    congrArg array (text_inj hty hother ((String.append_left_inj _).mp h))

end Ty.Plain

/-! ### Plain signatures -/

/-- The parameters of a method in its signature. -/
def paramChars (types : List Ty) : List Char := [','].intercalate (types.map (·.text.toList))

/-- Joined types are types that are followed by separators, but for the last one. -/
theorem paramChars_append (ty : Ty) (rest : List Ty) :
    paramChars (ty :: rest) ++ [','] = (ty :: rest).flatMap fun ty => ty.text.toList ++ [','] := by
  induction rest generalizing ty with
  | nil => simp [paramChars]
  | cons other rest ih => simpa [paramChars] using ih other

/-- Plain types are known from their printed forms if each is followed by a separator. -/
theorem flatMap_text_inj {types others : List Ty} (htypes : ∀ ty ∈ types, ty.Plain)
    (hothers : ∀ ty ∈ others, ty.Plain) (h : types.flatMap (fun ty => ty.text.toList ++ [',']) =
      others.flatMap (fun ty => ty.text.toList ++ [','])) : types = others := by
  induction types generalizing others with
  | nil =>
    cases others with
    | nil => rfl
    | cons other rest => simp at h
  | cons ty rest ih =>
    cases others with
    | nil => simp at h
    | cons other others =>
      have hty := htypes ty List.mem_cons_self
      have hother := hothers other List.mem_cons_self
      simp only [List.flatMap_cons, List.append_assoc, List.cons_append, List.nil_append] at h
      obtain ⟨htext, hrest⟩ := append_cons_inj (hty.not_mem_text (by decide) (by decide) (by decide))
        (hother.not_mem_text (by decide) (by decide) (by decide)) h
      rw [hty.text_inj hother (String.toList_inj.mp htext),
        ih (fun ty h => htypes ty (List.mem_cons_of_mem _ h))
          (fun ty h => hothers ty (List.mem_cons_of_mem _ h)) hrest]

/-- Only without parameters nothing is printed. -/
theorem paramChars_eq_nil {types : List Ty} (htypes : ∀ ty ∈ types, ty.Plain) (h : paramChars types = []) :
    types = [] := by
  cases types with
  | nil => rfl
  | cons ty rest =>
    have hempty := (htypes ty List.mem_cons_self).text_ne_empty
    cases rest <;> simp_all [paramChars]

/-- Plain parameters are known from how they are printed. -/
theorem paramChars_inj {types others : List Ty} (htypes : ∀ ty ∈ types, ty.Plain)
    (hothers : ∀ ty ∈ others, ty.Plain) (h : paramChars types = paramChars others) : types = others := by
  match types, others with
  | [], others => exact (paramChars_eq_nil hothers h.symm).symm
  | types, [] => exact paramChars_eq_nil htypes h
  | ty :: types, other :: others =>
    refine flatMap_text_inj htypes hothers ?_
    rw [← paramChars_append, ← paramChars_append, h]

namespace MethodSig

/-- The characters of a signature. -/
theorem toList_text (sig : MethodSig) : sig.text.toList = '<' :: (sig.owner.toList ++ ':' :: ' ' ::
    (sig.result.text.toList ++ ' ' :: (sig.name.toList ++ '(' ::
      (paramChars sig.params ++ [')', '>'])))) := by
  simp [text, memberText, paramChars, toString, Function.comp_def]

/-- Plain methods have different signatures. -/
theorem Plain.text_inj {sig other : MethodSig} (hsig : sig.Plain) (hother : other.Plain)
    (h : sig.text = other.text) : sig = other := by
  have hlist := congrArg String.toList h
  rw [toList_text, toList_text] at hlist
  have howner {sig : MethodSig} (hsig : sig.Plain) : ':' ∉ sig.owner.toList := fun hmem =>
    hsig.owner.undelimited _ hmem (by decide)
  have hresult {sig : MethodSig} (hsig : sig.Plain) : ' ' ∉ sig.result.text.toList :=
    hsig.result.not_mem_text (by decide) (by decide) (by decide)
  -- each part ends at the first delimiter that it cannot contain
  obtain ⟨hownerEq, hlist⟩ := append_cons_inj (howner hsig) (howner hother) (List.cons.inj hlist).2
  obtain ⟨hresultEq, hlist⟩ := append_cons_inj (hresult hsig) (hresult hother) (List.cons.inj hlist).2
  obtain ⟨hnameEq, hlist⟩ := append_cons_inj hsig.name.1 hother.name.1 hlist
  have hparams := paramChars_inj hsig.params hother.params (List.append_cancel_right hlist)
  obtain ⟨owner, name, params, result⟩ := sig
  obtain ⟨owner', name', params', result'⟩ := other
  obtain rfl : owner = owner' := String.toList_inj.mp hownerEq
  obtain rfl : name = name' := String.toList_inj.mp hnameEq
  obtain rfl : result = result' := hsig.result.text_inj hother.result (String.toList_inj.mp hresultEq)
  obtain rfl : params = params' := hparams
  rfl

end MethodSig

/-! ### Programs with plain methods -/

/-- A body of a plain method that calls plain methods only. -/
structure Body.Plain (body : Body) : Prop where
  method : body.method.Plain
  calls : ∀ instr ∈ body.code, ∀ site ∈ instr.op.callSites, site.method.Plain

/-- All methods of a program are plain. -/
def Program.Plain (p : Program) : Prop := ∀ m ∈ p.methods.values, m.sig.Plain

/-- The values of a table are those of its identifiers. -/
theorem Table.mem_values {κ α : Type} {t : Table κ α} {a : α} : a ∈ t.values ↔ ∃ id, t.get? id = some a := by
  simp only [values, get?, List.mem_map, Option.map_eq_some_iff, Array.mem_toList_iff, Array.mem_iff_getElem?]
  constructor
  · rintro ⟨entry, ⟨id, hid⟩, rfl⟩
    exact ⟨id, entry, hid, rfl⟩
  · rintro ⟨id, entry, hid, rfl⟩
    exact ⟨entry, ⟨id, hid⟩, rfl⟩

/-- Every method that the lowering of a body asks for is called in it. -/
theorem Body.calls_of_notes {body : Body} {idioms : List Idiom} {location : Location} {sig : MethodSig}
    (h : (location, .resolved sig) ∈ body.notes idioms) :
    ∃ instr ∈ body.code, ∃ site ∈ instr.op.callSites, site.method = sig := by
  obtain ⟨instr, hinstr, hnote⟩ := List.mem_flatMap.mp h
  obtain ⟨note, hnote, heq⟩ := List.mem_map.mp hnote
  cases heq
  obtain ⟨notes, hnotes, hconcerns⟩ := instr.op.notes_eq idioms
  rw [hnotes] at hnote
  rcases List.mem_append.mp hnote with hnote | hnote
  · exact ⟨instr, Array.mem_toList_iff.mp hinstr, hconcerns _ hnote⟩
  · cases hmonitor : instr.op.monitor? <;> simp [hmonitor] at hnote

namespace Program.Plain

variable {p q : Program} {body : Body}

/-- Only the methods matter for a plain program. -/
theorem of_methods (hp : p.Plain) (h : q.methods = p.methods) : q.Plain := by
  unfold Plain
  rwa [h]

/-- Asking for a plain method keeps a program plain. -/
theorem resolve (hp : p.Plain) {sig : MethodSig} (hsig : sig.Plain) : (p.resolve sig).2.Plain := by
  intro m hm
  rcases Table.mem_values_intern hm with hm | rfl
  · exact hp m hm
  · exact hsig

/-- Installing a body keeps a program plain. -/
theorem install (hp : p.Plain) {id : Nat} {flow : Flow} (h : p.install id flow = .ok q) : q.Plain := by
  rcases eq_of_install h with rfl | rfl
  · exact hp
  · intro m hm
    obtain ⟨other, hother⟩ := Table.mem_values.mp hm
    rw [Table.get?_modify] at hother
    obtain ⟨old, hget, rfl⟩ := Option.map_eq_some_iff.mp hother
    have hold := hp old (Table.mem_values.mpr ⟨other, hget⟩)
    split <;> exact hold

/-- Notes of a plain body keep a program plain. -/
theorem told (hp : p.Plain) (hbody : body.Plain) {notes : List (Location × Note)}
    (hnotes : notes <+: body.notes p.idioms) (h : p.Told body.method notes q) : q.Plain := by
  intro m hm
  rcases h.methods m hm with hm | ⟨⟨location, note⟩, hnote, rfl⟩
  · exact hp m hm
  · obtain ⟨instr, hinstr, site, hsite, hmethod⟩ := Body.calls_of_notes (hnotes.subset hnote)
    rw [← hmethod]
    exact hbody.calls instr hinstr site hsite

/-- Lowering a plain body keeps a program plain, whether it succeeds or fails. -/
theorem flowOf (hp : p.Plain) (hbody : body.Plain) (oracle : PredecessorOracle) :
    (stateAfter (Session.flowOf body oracle p)).Plain := by
  cases hrun : Session.flowOf body oracle p with
  | ok flow q => exact hp.told hbody List.prefix_rfl (Session.flowOf_told hrun)
  | error e q =>
    obtain ⟨told, hpart, htold⟩ := Session.flowOf_told_error hrun
    exact hp.told hbody hpart htold

/-- Lowering a plain body into a program keeps the program plain. -/
theorem lower (hp : p.Plain) (hbody : body.Plain) (oracle : PredecessorOracle) :
    (stateAfter (Session.lower body oracle p)).Plain := by
  have hflow := (hp.resolve hbody.method).flowOf hbody oracle
  rw [Session.lower_run]
  cases hrun : Session.flowOf body oracle (p.resolve body.method).2 with
  | error e q =>
    rw [hrun] at hflow
    exact hflow
  | ok flow q =>
    rw [hrun] at hflow
    dsimp only
    cases hinstall : q.install (p.resolve body.method).1 flow with
    | error e => exact hflow
    | ok r => exact hflow.install hinstall

/-- A slot of a batch keeps a program plain. -/
theorem slot (hp : p.Plain) (hbody : body.Plain) : (Session.slot body p).2.Plain := by
  have hlower := hp.lower hbody body.predecessorOracle
  unfold Session.slot Session.lowerByTransfers
  cases hrun : Session.lower body body.predecessorOracle p <;> rw [hrun] at hlower <;> exact hlower

/-- A batch of plain bodies keeps a program plain. -/
theorem lowerAll {bodies : List Body} (hp : p.Plain) (hbodies : ∀ body ∈ bodies, body.Plain) :
    (Session.lowerAll bodies p).2.Plain := by
  induction bodies generalizing p with
  | nil => exact hp
  | cons body rest ih =>
    obtain ⟨hbody, hrest⟩ := List.forall_mem_cons.mp hbodies
    rw [Session.lowerAll_cons]
    exact ih (hp.slot hbody) hrest

end Program.Plain

/-! ### Sessions with plain references -/

/-- A demand that refers to plain methods and to arrays of plain types only. -/
def Demand.Plain : Demand → Prop
  | method sig => sig.Plain
  | arrayClass element => element.Plain
  | global .. => True
  | lower body _ | lowerByTransfers body | flowOf body _ => body.Plain
  | lowerAll bodies => ∀ body ∈ bodies, body.Plain

/-- The program after an answer is the one that the run ended in. -/
theorem Answer.ofResult_snd {α : Type} (answer : α → Answer) (r : EStateM.Result Error Program α) :
    (ofResult answer r).2 = stateAfter r := by
  cases r <;> rfl

namespace Session

variable {p : Program}

/-- Plain demands leave a program with plain methods. -/
theorem plain_serve (hp : p.Plain) {demand : Demand} (h : demand.Plain) : (demand.serve p).2.Plain := by
  cases demand with
  | method sig => exact hp.resolve h
  | arrayClass element => exact hp.of_methods rfl
  | global name ty =>
    rw [Demand.serve, Answer.ofResult_snd]
    rcases p.stateAfter_global name ty with h | ⟨globals, supply, h⟩ <;> rw [h] <;> exact hp.of_methods rfl
  | lower body oracle =>
    rw [Demand.serve, Answer.ofResult_snd]
    exact hp.lower h oracle
  | lowerByTransfers body =>
    rw [Demand.serve, Answer.ofResult_snd]
    exact hp.lower h body.predecessorOracle
  | flowOf body oracle =>
    rw [Demand.serve, Answer.ofResult_snd]
    exact hp.flowOf h oracle
  | lowerAll bodies => exact hp.lowerAll h

/-- Plain demands keep a program plain. -/
theorem plain_after (hp : p.Plain) {demands : List Demand} (h : ∀ demand ∈ demands, demand.Plain) :
    (after demands p).Plain := by
  induction demands generalizing p with
  | nil => exact hp
  | cons demand rest ih =>
    exact ih (plain_serve hp (h demand List.mem_cons_self)) fun other hother =>
      h other (List.mem_cons_of_mem _ hother)

/-- A program with plain methods resolves a plain method to itself. -/
theorem sig_of_resolve (hkeyed : p.Keyed) (hp : p.Plain) {sig : MethodSig} (hsig : sig.Plain) :
    ∃ m, (p.resolve sig).2.method? (p.resolve sig).1 = some m ∧ m.sig = sig := by
  have hfind : (p.resolve sig).2.methods.find? sig.text = some (p.resolve sig).1 :=
    Table.find?_intern_self ..
  obtain ⟨m, hm⟩ := Table.get?_of_find? hfind
  have hkey := (hkeyed.methods.intern rfl : (p.resolve sig).2.methods.Keyed Method.signature) _ m hm
  have hplain := hp.resolve hsig m (Table.mem_values.mpr ⟨_, hm⟩)
  exact ⟨m, hm, hplain.text_inj hsig (Table.find?_inj hkey hfind)⟩

/-- Through a whole session, an array class is the one that is made for the element type. -/
theorem arrayClass_after (config : Config) (demands : List Demand) (element : Ty) :
    ((after demands (.new config)).arrayClass element).1 = (Program.new config).makeArrayClass element := by
  rw [(served (Program.keyed_new config) demands).steps.stays.arrays, Program.arrayClass_fst]
  simp [Program.new, Table.lookup, Table.find?, Table.empty]

/-- What the keys of the caches stand for in a session. -/
structure KeysIdentify (config : Config) (demands : List Demand) : Prop where
  /-- Plain types are printed differently. -/
  types : ∀ ty other : Ty, ty.Plain → other.Plain → ty.text = other.text → ty = other
  /-- Plain methods have different signatures. -/
  signatures : ∀ sig other : MethodSig, sig.Plain → other.Plain → sig.text = other.text → sig = other
  /-- A plain method that is asked for is the one that is found. -/
  methods : ∀ sig : MethodSig, sig.Plain →
    ∃ m, ((after demands (.new config)).resolve sig).2.method? ((after demands (.new config)).resolve sig).1 =
      some m ∧ m.sig = sig
  /-- Different plain element types have array classes of different names, with different length fields. -/
  arrayClasses : ∀ (future : List Demand) (element other : Ty), element.Plain → other.Plain → element ≠ other →
    ((after demands (.new config)).arrayClass element).1.name ≠
        ((after (demands ++ future) (.new config)).arrayClass other).1.name ∧
      ((after demands (.new config)).arrayClass element).1.lengthField ≠
        ((after (demands ++ future) (.new config)).arrayClass other).1.lengthField

/-- In a session with plain references, keys identify what they stand for. -/
theorem signatures_identify (config : Config) {demands : List Demand}
    (h : ∀ demand ∈ demands, demand.Plain) : KeysIdentify config demands where
  types ty other hty hother := hty.text_inj hother
  signatures sig other hsig hother := hsig.text_inj hother
  methods sig hsig := by
    have hkeyed := (served (Program.keyed_new config) demands).steps.keyed (Program.keyed_new config)
    have hnew : (Program.new config).Plain := fun m hm => nomatch hm
    exact sig_of_resolve hkeyed (plain_after hnew h) hsig
  arrayClasses future element other helement hother hne := by
    rw [arrayClass_after, arrayClass_after]
    have hname : (Ty.array element).text ≠ (Ty.array other).text := fun heq =>
      hne (helement.text_inj hother ((String.append_left_inj _).mp heq))
    exact ⟨hname, fun heq => hname (congrArg FieldSig.owner heq)⟩

/-- Methods that differ only in whether there is an array, and a body that calls a method. -/
def overloadExample : List Demand :=
  [.method ⟨"List", "add", [.named "Item"], .boolean⟩,
    .method ⟨"List", "add", [.array (.named "Item")], .boolean⟩, .arrayClass (.named "Item"),
    .lowerByTransfers disclosureExample]

/-- All references in the example are plain. -/
theorem signatures_identify_overloads :
    (∀ demand ∈ overloadExample, demand.Plain) ∧ KeysIdentify .standard overloadExample := by
  have hlist : IsClassName "List" := by decide
  have hitem : IsClassName "Item" := by decide
  have hfindings : IsClassName "Findings" := by decide
  have hsystem : IsClassName "java.lang.System" := by decide
  have hcalls : ∀ instr ∈ disclosureExample.code, ∀ site ∈ instr.op.callSites,
      site.method = ⟨"java.lang.System", "exit", [.int], .prim .void⟩ := by
    simp [disclosureExample, Op.callSites, CallSite.of, Value.callSites, Value.callSitesOf, Value.callSites?]
  have hbody : disclosureExample.Plain := by
    refine ⟨⟨hfindings, by decide, by simp [disclosureExample], trivial⟩, fun instr hinstr site hsite => ?_⟩
    rw [hcalls instr hinstr site hsite]
    exact ⟨hsystem, by decide, by simp [Ty.Plain], trivial⟩
  have hplain : ∀ demand ∈ overloadExample, demand.Plain := by
    simp only [overloadExample, List.forall_mem_cons]
    refine ⟨⟨hlist, by decide, ?_, trivial⟩, ⟨hlist, by decide, ?_, trivial⟩, hitem, hbody, by simp⟩ <;>
      simpa [Ty.Plain] using hitem
  exact ⟨hplain, signatures_identify .standard hplain⟩

end Session

end GuardedFlow

import Mathlib.Data.List.Nodup
import Retouch.Proofs.Naming
import Retouch.Proofs.Slices

/-!
# What a new type parameter captures

A property's type becomes a parameter of the declaration around it. The parameter is in scope in the
whole declaration, so that it takes over every reference that bears its name there and is not bound
further in.

- `GenericType.freshName_not_mem`: the name of the new parameter is no name of another one.
- `GenericType.Generalizes`: a declaration before and after the change.
- `GenericType.exists_generalizes`: every document that parses has such a declaration where the
  refactoring applies.
- `GenericType.parameter_keeps_references_iff`: the references that stay what they were.
-/

namespace Retouch

open Syntax

/-! ## Names of types -/

namespace Syntax

/-- A construct at which no name occurs, with the scopes that it opens for all of its parts. -/
theorem occurrences_opens {form : Form} {span : Span} {parts : List Node} (opened : List Scope)
    (hname : form.occurringTypes parts = [])
    (hopens : ∀ i part, form.opensTypes span parts i part = opened) (scopes : List Scope) :
    types.occurrences scopes (.mk form span parts) =
      parts.flatMap (types.occurrences (opened ++ scopes)) := by
  have hall : ∀ i part, 0 ≤ i → types.opens form span parts i part = opened :=
    fun i part _ => hopens i part
  rw [Naming.occurrences, Naming.occurrencesFrom_eq_flatMap (fun _ => rfl) hall]
  show (form.occurringTypes parts).map _ ++ _ = _
  rw [hname]
  rfl

end Syntax

namespace GenericType

/-! ## The name of the new parameter -/

theorem toList_candidate_succ (n : Nat) :
    (candidate (n + 1)).toList = 'T' :: Nat.toDigits 10 (n + 1) := by
  rw [candidate, Nat.toString_eq_ofList_toDigits, String.toList_append]
  exact congrArg ('T' :: ·) String.toList_ofList

theorem candidate_injective : Function.Injective candidate := by
  have hlater (n : Nat) : candidate (n + 1) ≠ candidate 0 := by
    intro h
    have hlist := congrArg String.toList h
    rw [toList_candidate_succ] at hlist
    exact Nat.toDigits_ne_nil (List.cons.inj hlist).2
  intro m n h
  cases m with
  | zero =>
    cases n with
    | zero => rfl
    | succ n => exact absurd h.symm (hlater n)
  | succ m =>
    cases n with
    | zero => exact absurd h (hlater m)
    | succ n =>
      have hlist := congrArg String.toList h
      rw [toList_candidate_succ, toList_candidate_succ] at hlist
      -- the digits can be read back
      rw [← @Nat.ofDigitChars_ten_toDigits (m + 1), (List.cons.inj hlist).2,
        Nat.ofDigitChars_ten_toDigits]

/-- Of one more candidate than there are taken names, one is free. -/
theorem exists_free (taken : List String) : ∃ n ≤ taken.length, candidate n ∉ taken := by
  by_contra! h
  have hsub : (List.range (taken.length + 1)).map candidate ⊆ taken := by
    intro name hname
    obtain ⟨n, hn, rfl⟩ := List.mem_map.mp hname
    exact h n (Nat.le_of_lt_succ (List.mem_range.mp hn))
  have hle := (List.nodup_range.map candidate_injective).length_le_of_subset hsub
  rw [List.length_map, List.length_range] at hle
  omega

theorem exists_candidate (taken : List String) :
    ∃ n, freshName taken = candidate n ∧ candidate n ∉ taken := by
  let tried := (List.range (taken.length + 1)).map candidate
  have hfound : (tried.find? fun name => !taken.contains name).isSome = true := by
    obtain ⟨n, hn, hfree⟩ := exists_free taken
    refine List.find?_isSome.mpr ⟨candidate n, ?_, by simpa using hfree⟩
    exact List.mem_map_of_mem (List.mem_range.mpr (Nat.lt_succ_of_le hn))
  obtain ⟨name, hname⟩ := Option.isSome_iff_exists.mp hfound
  obtain ⟨n, -, rfl⟩ := List.mem_map.mp (List.mem_of_find?_eq_some hname)
  refine ⟨n, ?_, by simpa using List.find?_some hname⟩
  rw [freshName, hname]
  rfl

/-- The new parameter has a name of its own among the parameters. -/
theorem freshName_not_mem (taken : List String) : freshName taken ∉ taken := by
  obtain ⟨n, hfresh, hnot⟩ := exists_candidate taken
  rwa [hfresh]

theorem map_fst_parameterScope (list : Node) :
    (parameterScope list.parts).map Prod.fst = parameterNames list := by
  unfold parameterScope parameterNames
  induction list.parts with
  | nil => rfl
  | cons p rest ih =>
    rw [List.flatMap_cons, List.map_append, ih]
    cases p with
    | mk form span parts => cases form <;> rfl

end GenericType

/-! ## A declaration with a further parameter -/

namespace Syntax

/-- Constructs on the way from a declaration of a type to its properties. -/
def Form.isPassage : Form → Bool
  | .group | .element (.property _ _) | .type .literal => true
  | _ => false

/-- Names of types neither occur at such a construct nor are they declared there. -/
theorem occurrences_passage {form : Form} (hform : form.isPassage = true) (span : Span)
    (parts : List Node) (scopes : List Scope) :
    types.occurrences scopes (.mk form span parts) =
      parts.flatMap (types.occurrences scopes) := by
  have hname : form.occurringTypes parts = [] := by
    unfold Form.isPassage at hform
    split at hform
    case h_4 => cases hform
    all_goals rfl
  have hopens (i : Nat) (part : Node) : form.opensTypes span parts i part = [] := by
    unfold Form.isPassage at hform
    split at hform
    case h_4 => cases hform
    all_goals rfl
  exact occurrences_opens [] hname hopens scopes

/-- A tree with one construct in place of another, in a property at any depth. -/
inductive Node.Retypes (old new : Node) : Node → Node → Prop where
  | here : Retypes old new old new
  | inside {form : Form} {span : Span} {earlier later : List Node} {part part' : Node}
      (hform : form.isPassage = true) (h : Retypes old new part part') :
      Retypes old new (.mk form span (earlier ++ part :: later))
        (.mk form span (earlier ++ part' :: later))

namespace Node.Retypes

variable {old new n n' m m' : Node}

theorem trans (h : old.Retypes new m m') (h' : m.Retypes m' n n') : old.Retypes new n n' := by
  induction h' with
  | here => exact h
  | inside hform _ ih => exact .inside hform ih

/-- Around the place where the two trees differ stand the same constructs, all of them in the scopes
around the tree. -/
theorem exists_around (h : old.Retypes new n n') :
    ∃ earlier later : List Node, ∀ scopes,
      types.occurrences scopes n = earlier.flatMap (types.occurrences scopes) ++
        types.occurrences scopes old ++ later.flatMap (types.occurrences scopes) ∧
      types.occurrences scopes n' = earlier.flatMap (types.occurrences scopes) ++
        types.occurrences scopes new ++ later.flatMap (types.occurrences scopes) := by
  induction h with
  | here => exact ⟨[], [], fun scopes => ⟨by simp, by simp⟩⟩
  | @inside form span before behind part part' hform _ ih =>
    obtain ⟨earlier, later, haround⟩ := ih
    refine ⟨before ++ earlier, later ++ behind, fun scopes => ?_⟩
    obtain ⟨hpart, hpart'⟩ := haround scopes
    constructor
    · rw [occurrences_passage hform, List.flatMap_append, List.flatMap_cons, hpart]
      simp only [List.flatMap_append, List.append_assoc]
    · rw [occurrences_passage hform, List.flatMap_append, List.flatMap_cons, hpart']
      simp only [List.flatMap_append, List.append_assoc]

end Node.Retypes

/-- A list of type parameters, or none, with one more at its end. -/
def Node.withParameter (list parameter : Node) : Node :=
  .mk .typeParams list.span (list.parts ++ [parameter])

end Syntax

namespace GenericType

/-- A declaration of a type before and after it gets a further type parameter and one construct in
its properties is replaced. -/
inductive Generalizes (parameter old new : Node) : Node → Node → Prop where
  | interface {form : Form} {ambient : Bool} {span : Span} {name list extended body body' : Node}
      (hform : form = .stmt (.declaration (.interface ambient)) ∨ form = .decl (.interface ambient))
      (hlist : list.IsParameterList) (h : old.Retypes new body body') :
      Generalizes parameter old new (.mk form span [name, list, extended, body])
        (.mk form span [name, list.withParameter parameter, extended, body'])
  | exported {span : Span} {name list extended body body' : Node}
      (hlist : list.IsParameterList) (h : old.Retypes new body body') :
      Generalizes parameter old new
        (.mk (.moduleItem .exportDefaultInterface) span [name, body, list, extended])
        (.mk (.moduleItem .exportDefaultInterface) span
          [name, body', list.withParameter parameter, extended])
  | typeAlias {form : Form} {ambient : Bool} {span : Span} {name list type type' : Node}
      (hform : form = .stmt (.declaration (.typeAlias ambient)) ∨ form = .decl (.typeAlias ambient))
      (hlist : list.IsParameterList) (h : old.Retypes new type type') :
      Generalizes parameter old new (.mk form span [name, list, type])
        (.mk form span [name, list.withParameter parameter, type'])

theorem Generalizes.of_retypes {parameter old new m m' n n' : Node} (h : old.Retypes new m m')
    (hn : Generalizes parameter m m' n n') : Generalizes parameter old new n n' := by
  cases hn with
  | interface hform hlist hbody => exact .interface hform hlist (h.trans hbody)
  | exported hlist hbody => exact .exported hlist (h.trans hbody)
  | typeAlias hform hlist htype => exact .typeAlias hform hlist (h.trans htype)

end GenericType

/-! ## A scope with a further name -/

namespace Syntax

/-- An occurrence after its name is declared further in than the given depth, where it led out of
there before. -/
def Occurrence.captured (name : String) (depth : Nat) (place : Span) (o : Occurrence) : Occurrence :=
  if o.name = name ∧ ∀ target ∈ o.target, target.1 < depth then
    { o with target := some (depth, [place]) }
  else o

variable {scope : Scope} {name : String} {place : Span} {scopes : List Scope}

theorem declarers_further (scope : Scope) (name : String) (place : Span) (other : String) :
    Scope.declarers (scope ++ [(name, place)]) other =
      scope.declarers other ++ if other = name then [place] else [] := by
  rw [declarers_append]
  congr 1
  by_cases h : other = name
  · subst h
    simp [Scope.declarers]
  · rw [if_neg h]
    exact declarers_eq_nil_iff.mpr (by simpa using h)

/-- A name that a scope does not have yet leads there once it is added. -/
theorem resolve_further (hnew : scope.declarers name = []) :
    resolve ((scope ++ [(name, place)]) :: scopes) name = some (scopes.length, [place]) := by
  rw [resolve, declarers_further, hnew, if_pos rfl]
  rfl

/-- What is declared inside of a tree keeps its occurrences; an occurrence of the new name that led
out is captured. -/
theorem within_further (hnew : scope.declarers name = []) (o : Occurrence) :
    o.within ((scope ++ [(name, place)]) :: scopes) =
      (o.within (scope :: scopes)).captured name scopes.length place := by
  obtain ⟨span, word, target⟩ := o
  cases target with
  | some target =>
    refine (if_neg fun h => ?_).symm
    have hlt : target.1 + (scopes.length + 1) < scopes.length := h.2 _ rfl
    omega
  | none =>
    show Occurrence.mk span word (resolve ((scope ++ [(name, place)]) :: scopes) word) = _
    by_cases hword : word = name
    · subst hword
      refine Eq.trans ?_ (if_pos ⟨rfl, fun target htarget => ?_⟩).symm
      · rw [resolve_further hnew]
        rfl
      · have hout : resolve (scope :: scopes) word = resolve scopes word := by
          rw [resolve, if_pos hnew]
        exact resolve_lt (hout.symm.trans htarget)
    · refine Eq.trans ?_ (if_neg fun h => hword h.1).symm
      have hsame := declarers_further scope name place word
      rw [if_neg hword, List.append_nil] at hsame
      exact congrArg (Occurrence.mk span word) (resolve_cons_eq_iff.mpr hsame)

/-- So only free occurrences of the new name lead elsewhere. -/
theorem Naming.occurrences_further (k : Naming) (hnew : scope.declarers name = [])
    (trees : List Node) :
    trees.flatMap (k.occurrences ((scope ++ [(name, place)]) :: scopes)) =
      (trees.flatMap (k.occurrences (scope :: scopes))).map
        (Occurrence.captured name scopes.length place) := by
  rw [k.flatMap_occurrences trees (scope :: scopes), k.flatMap_occurrences, List.map_map]
  exact List.map_congr_left fun o _ => within_further hnew o

/-- All names lead to where they led exactly if the new name is not free. -/
theorem Naming.occurrences_further_eq_iff (k : Naming) {trees : List Node} :
    trees.flatMap (k.occurrences ((scope ++ [(name, place)]) :: scopes)) =
        trees.flatMap (k.occurrences (scope :: scopes)) ↔
      name ∉ k.freeNames trees := by
  rw [k.occurrences_eq_iff]
  constructor
  · intro h hfree
    have hsame := h name hfree
    rw [declarers_further, if_pos rfl] at hsame
    simp at hsame
  · intro h other hother
    have hne : other ≠ name := fun heq => h (heq ▸ hother)
    rw [declarers_further, if_neg hne, List.append_nil]

end Syntax

/-! ## The names in a declaration -/

namespace GenericType

/-- A type parameter with a default. -/
def newParameter (name : String) (place : Span) (type : Node) : Node :=
  .mk (.typeParam name []) place [.absent, type]

/-- A reference to a type by its name. -/
def newReference (name : String) (span : Span) : Node :=
  .mk (.type .reference) span [.mk (.name name) span [], .absent]

/-- Everything in a declaration stands in the scope of its type parameters. -/
theorem occurrences_owner {n : Node} {owner : Owner} (h : ownerIn? n = some owner)
    (scopes : List Scope) :
    types.occurrences scopes n =
      n.parts.flatMap (types.occurrences (parameterScope owner.parameters.parts :: scopes)) := by
  obtain ⟨form, span, parts⟩ := n
  unfold ownerIn? at h
  split at h
  case h_6 => cases h
  all_goals
    next hform hparts =>
    cases hform
    cases hparts
    cases h
    exact occurrences_opens [_] rfl (fun _ _ => rfl) scopes

variable {name : String} {place : Span} {type new n n' : Node} {scopes : List Scope}

/-- A further parameter whose default names no type changes nothing among the names in a list. -/
theorem occurrences_withParameter {list : Node} (hlist : list.IsParameterList)
    (htype : types.occurrences scopes type = []) :
    types.occurrences scopes (list.withParameter (newParameter name place type)) =
      types.occurrences scopes list := by
  have hparameter : types.occurrences scopes (newParameter name place type) = [] := by
    rw [newParameter, occurrences_opens [] rfl (fun _ _ => rfl) scopes]
    show types.occurrences scopes .absent ++ (types.occurrences scopes type ++ []) = []
    rw [htype]
    rfl
  have hparts : types.occurrences scopes list = list.parts.flatMap (types.occurrences scopes) := by
    rcases hlist with rfl | hform
    · rfl
    · obtain ⟨form, span, parts⟩ := list
      cases hform
      exact occurrences_opens [] rfl (fun _ _ => rfl) scopes
  rw [Node.withParameter, occurrences_opens [] rfl (fun _ _ => rfl) scopes, hparts]
  simpa using hparameter

/-- The parts of the declaration before and after the change hold the same constructs around the
place where they differ. -/
theorem Generalizes.exists_around (htype : ∀ scopes, types.occurrences scopes type = [])
    (h : Generalizes (newParameter name place type) type new n n') :
    ∃ earlier later : List Node, ∀ scopes,
      n.parts.flatMap (types.occurrences scopes) =
        (earlier ++ later).flatMap (types.occurrences scopes) ∧
      n'.parts.flatMap (types.occurrences scopes) = earlier.flatMap (types.occurrences scopes) ++
        types.occurrences scopes new ++ later.flatMap (types.occurrences scopes) := by
  cases h with
  | @interface _ _ _ word list extended _ _ _ hlist hbody =>
    obtain ⟨earlier, later, haround⟩ := hbody.exists_around
    refine ⟨[word, list, extended] ++ earlier, later, fun scopes => ?_⟩
    obtain ⟨hold, hnew⟩ := haround scopes
    simp [Node.parts, hold, hnew, htype, occurrences_withParameter hlist (htype scopes)]
  | @exported _ word list extended _ _ hlist hbody =>
    obtain ⟨earlier, later, haround⟩ := hbody.exists_around
    refine ⟨word :: earlier, later ++ [list, extended], fun scopes => ?_⟩
    obtain ⟨hold, hnew⟩ := haround scopes
    simp [Node.parts, hold, hnew, htype, occurrences_withParameter hlist (htype scopes)]
  | @typeAlias _ _ _ word list _ _ _ hlist hbody =>
    obtain ⟨earlier, later, haround⟩ := hbody.exists_around
    refine ⟨[word, list] ++ earlier, later, fun scopes => ?_⟩
    obtain ⟨hold, hnew⟩ := haround scopes
    simp [Node.parts, hold, hnew, htype, occurrences_withParameter hlist (htype scopes)]

/-- The parameters of the declaration after the change. -/
theorem Generalizes.ownerIn?_eq {parameter old : Node} {owner : Owner}
    (h : Generalizes parameter old new n n') (howner : ownerIn? n = some owner) :
    ownerIn? n' = some ⟨owner.name, owner.parameters.withParameter parameter⟩ := by
  cases h with
  | interface hform _ _ => rcases hform with rfl | rfl <;> cases howner <;> rfl
  | exported _ _ =>
    cases howner
    rfl
  | typeAlias hform _ _ => rcases hform with rfl | rfl <;> cases howner <;> rfl

/-- The names in a declaration before and after the change, in the order in which they occur: the new
parameter captures its free name, and the reference to it stands where no name did before. So all
other names lead to where they led exactly if the name of the parameter was not free. -/
theorem Generalizes.exists_occurrences {owner : Owner} (howner : ownerIn? n = some owner)
    (htype : ∀ scopes, types.occurrences scopes type = [])
    (h : Generalizes (newParameter name place type) type (newReference name type.span) n n')
    (hnew : name ∉ parameterNames owner.parameters) (scopes : List Scope) :
    ∃ before behind, types.occurrences scopes n = before ++ behind ∧
      types.occurrences scopes n' =
        before.map (Occurrence.captured name scopes.length place) ++
          ⟨type.span, name, some (scopes.length, [place])⟩ ::
            behind.map (Occurrence.captured name scopes.length place) ∧
      (before.map (Occurrence.captured name scopes.length place) = before ∧
          behind.map (Occurrence.captured name scopes.length place) = behind ↔
        name ∉ types.freeNames [n]) := by
  obtain ⟨earlier, later, haround⟩ := h.exists_around htype
  let scope := parameterScope owner.parameters.parts
  have hout : scope.declarers name = [] := by
    refine declarers_eq_nil_iff.mpr ?_
    rwa [map_fst_parameterScope]
  have hscope : parameterScope (owner.parameters.withParameter (newParameter name place type)).parts
      = scope ++ [(name, place)] := by
    show (owner.parameters.parts ++ [newParameter name place type]).flatMap _ = _
    rw [List.flatMap_append]
    rfl
  have hbefore : types.occurrences scopes n =
      earlier.flatMap (types.occurrences (scope :: scopes)) ++
        later.flatMap (types.occurrences (scope :: scopes)) := by
    rw [occurrences_owner howner, (haround (scope :: scopes)).1, List.flatMap_append]
  refine ⟨_, _, hbefore, ?_, ?_⟩
  · rw [occurrences_owner (h.ownerIn?_eq howner), hscope, (haround _).2,
      types.occurrences_further hout, types.occurrences_further hout, List.append_assoc]
    congr 1
    show Occurrence.mk type.span name (resolve ((scope ++ [(name, place)]) :: scopes) name) ::
      (_ ++ _) = _
    rw [resolve_further hout]
    rfl
  · have hparts : types.freeNames n.parts = types.freeNames (earlier ++ later) := by
      rw [Naming.freeNames, (haround []).1, Naming.freeNames]
    have hkeeps : (earlier ++ later).flatMap
          (types.occurrences ((scope ++ [(name, place)]) :: scopes)) =
        (earlier ++ later).flatMap (types.occurrences (scope :: scopes)) ↔
          name ∉ types.freeNames (earlier ++ later) := types.occurrences_further_eq_iff
    rw [types.occurrences_further hout, List.flatMap_append, List.map_append] at hkeeps
    rw [types.mem_freeNames_of_opens (occurrences_owner howner []), hparts, and_iff_left hout,
      ← hkeeps]
    exact ⟨fun hboth => by rw [hboth.1, hboth.2], fun hall => List.append_inj hall (List.length_map _)⟩

/-! ## From a declaration to its properties -/

theorem exposure_of_element_or_type {form : Form}
    (h : form.isElement = true ∨ form.isType = true) : form.exposure = .entry := by
  cases form with
  | element f => rfl
  | type f => rfl
  | _ => simp [Form.isElement, Form.isType] at h

/-- Parts that have entries of their own are shown as they are. -/
theorem mem_of_mem_ofParts {form : Form} {parts : List Node} {o : Outline}
    (hparts : ∀ m ∈ parts, m.form.exposure = .entry) {i : Nat}
    (ho : o ∈ Outline.ofParts form i parts) : o.node ∈ parts := by
  induction parts generalizing i with
  | nil => cases ho
  | cons part rest ih =>
    have hrest (ho : o ∈ Outline.ofParts form (i + 1) rest) : o.node ∈ part :: rest :=
      List.mem_cons_of_mem part (ih (fun m hm => hparts m (List.mem_cons_of_mem part hm)) ho)
    rw [Outline.ofParts] at ho
    split at ho
    · rcases List.mem_append.mp ho with ho | ho
      · rw [Outline.ofNode_of_entry (hparts part List.mem_cons_self)] at ho
        rw [List.mem_singleton.mp ho]
        exact List.mem_cons_self
      · exact hrest ho
    · exact hrest ho

theorem ofParts_eq_nil {form : Form} (h : ∀ i, form.shows i = false) (i : Nat)
    (parts : List Node) : Outline.ofParts form i parts = [] := by
  induction parts generalizing i with
  | nil => rfl
  | cons part rest ih => rw [Outline.ofParts, if_neg (by simp [h i]), ih (i + 1)]

/-- A part can be exchanged for another construct. -/
theorem exists_retypes_of_mem {form : Form} (hform : form.isPassage = true) (span : Span)
    {parts : List Node} {m : Node} (hm : m ∈ parts) (new : Node) :
    ∃ m', m.Retypes new (.mk form span parts) m' := by
  obtain ⟨earlier, later, rfl⟩ := List.append_of_mem hm
  exact ⟨_, .inside hform .here⟩

/-- So can each of several elements that are shown. -/
theorem exists_retypes_of_elements {form : Form} (hform : form.isPassage = true) (span : Span)
    {elements : List Node} (helements : ∀ m ∈ elements, m.form.isElement = true) {o : Outline}
    (ho : o ∈ Outline.ofParts form 0 elements) :
    (o.node.form.isElement = true ∨ o.node.form.isType = true) ∧
      ∀ new, ∃ m', o.node.Retypes new (.mk form span elements) m' := by
  have hmem : o.node ∈ elements :=
    mem_of_mem_ofParts (fun m hm => exposure_of_element_or_type (.inl (helements m hm))) ho
  exact ⟨.inl (helements _ hmem), exists_retypes_of_mem hform span hmem⟩

/-- A type is shown as it is. -/
theorem eq_of_mem_ofNode {type : Node} (htype : type.form.isType = true) {o : Outline}
    (ho : o ∈ Outline.ofNode type) : o.node = type := by
  rw [Outline.ofNode_of_entry (exposure_of_element_or_type (.inr htype))] at ho
  rw [List.mem_singleton.mp ho]
  rfl

/-- What an element or a type shows is again an element or a type, and can be exchanged. -/
theorem exists_retypes_of_shown {text : Text} {m : Node} (hm : m.Sound text)
    (hform : m.form.isElement = true ∨ m.form.isType = true) {o : Outline}
    (ho : o ∈ Outline.ofParts m.form 0 m.parts) :
    (o.node.form.isElement = true ∨ o.node.form.isType = true) ∧
      ∀ new, ∃ m', o.node.Retypes new m m' := by
  obtain ⟨form, span, parts⟩ := m
  change o ∈ Outline.ofParts form 0 parts at ho
  cases form with
  | element f =>
    cases f with
    | property isReadonly optional =>
      obtain ⟨key, type, hparts, htype⟩ := hm.fits
      obtain rfl : parts = [key, type] := hparts
      -- only the type is looked at
      have hshown : Outline.ofParts (.element (.property isReadonly optional)) 0 [key, type] =
          Outline.ofNode type ++ [] := rfl
      rw [hshown, List.append_nil] at ho
      rcases htype with rfl | htype
      · cases ho
      · rw [eq_of_mem_ofNode htype ho]
        refine ⟨.inr htype, fun new => ?_⟩
        exact exists_retypes_of_mem rfl span (List.mem_cons_of_mem key List.mem_cons_self) new
    | _ =>
      rw [ofParts_eq_nil fun _ => rfl] at ho
      cases ho
  | type f =>
    cases f with
    | literal => exact exists_retypes_of_elements rfl span hm.fits ho
    | _ =>
      rw [ofParts_eq_nil fun _ => rfl] at ho
      cases ho
  | _ => simp [Form.isElement, Form.isType, Node.form] at hform

theorem owner_cases {owner : Owner} (h : ownerIn? n = some owner) :
    n.form = .moduleItem .exportDefaultInterface ∨
      (∃ ambient, n.form = .stmt (.declaration (.interface ambient)) ∨
        n.form = .decl (.interface ambient)) ∨
      ∃ ambient, n.form = .stmt (.declaration (.typeAlias ambient)) ∨
        n.form = .decl (.typeAlias ambient) := by
  unfold ownerIn? at h
  split at h
  · next hform _ => exact .inl hform
  · next hform _ => exact .inr (.inl ⟨_, .inl hform⟩)
  · next hform _ => exact .inr (.inl ⟨_, .inr hform⟩)
  · next hform _ => exact .inr (.inr ⟨_, .inl hform⟩)
  · next hform _ => exact .inr (.inr ⟨_, .inr hform⟩)
  · cases h

/-- What a declaration of a type shows is an element or a type, and can be exchanged while the
declaration gets a further parameter. -/
theorem exists_generalizes_of_shown {text : Text} (hn : n.Sound text) {owner : Owner}
    (howner : ownerIn? n = some owner) {o : Outline}
    (ho : o ∈ Outline.ofParts n.form 0 n.parts) :
    (o.node.form.isElement = true ∨ o.node.form.isType = true) ∧
      ∀ parameter new, ∃ n', Generalizes parameter o.node new n n' := by
  have hform := owner_cases howner
  obtain ⟨form, span, parts⟩ := n
  change o ∈ Outline.ofParts form 0 parts at ho
  have hfits : form.Fits parts := hn.fits
  -- elements come in a group, of which nothing but they are shown
  have hgroup {elements : List Node} (helements : ∀ m ∈ elements, m.form.isElement = true)
      (ho : o ∈ Outline.ofParts .group 0 elements ++ []) :
      (o.node.form.isElement = true ∨ o.node.form.isType = true) ∧
        ∀ new, ∃ m', o.node.Retypes new (.group elements) m' := by
    rw [List.append_nil] at ho
    exact exists_retypes_of_elements rfl _ helements ho
  rcases hform with hform | ⟨ambient, hform⟩ | ⟨ambient, hform⟩
  · obtain rfl : form = .moduleItem .exportDefaultInterface := hform
    obtain ⟨name, elements, list, extended, rfl, hlist, helements⟩ := hfits
    obtain ⟨hshown, hretypes⟩ := hgroup helements ho
    refine ⟨hshown, fun parameter new => ?_⟩
    obtain ⟨m', hm'⟩ := hretypes new
    exact ⟨_, .exported hlist hm'⟩
  · have hinterface : ∃ name list extended elements,
        parts = [name, list, extended, .group elements] ∧ list.IsParameterList ∧
        (∀ m ∈ elements, m.form.isElement = true) ∧
        o ∈ Outline.ofParts .group 0 elements ++ [] := by
      rcases hform with hform | hform
      all_goals
        cases hform
        obtain ⟨name, list, extended, elements, rfl, hlist, helements⟩ := hfits
        exact ⟨name, list, extended, elements, rfl, hlist, helements, ho⟩
    obtain ⟨name, list, extended, elements, rfl, hlist, helements, ho⟩ := hinterface
    obtain ⟨hshown, hretypes⟩ := hgroup helements ho
    refine ⟨hshown, fun parameter new => ?_⟩
    obtain ⟨m', hm'⟩ := hretypes new
    exact ⟨_, .interface hform hlist hm'⟩
  · have halias : ∃ name list type, parts = [name, list, type] ∧ list.IsParameterList ∧
        type.form.isType = true ∧ o ∈ Outline.ofNode type ++ [] := by
      rcases hform with hform | hform
      all_goals
        cases hform
        obtain ⟨name, list, type, rfl, hlist, htype⟩ := hfits
        exact ⟨name, list, type, rfl, hlist, htype, ho⟩
    obtain ⟨name, list, type, rfl, hlist, htype, ho⟩ := halias
    rw [List.append_nil] at ho
    rw [eq_of_mem_ofNode htype ho]
    exact ⟨.inr htype, fun parameter new => ⟨_, .typeAlias hform hlist .here⟩⟩

/-- So it is for everything below a declaration of a type. -/
theorem exists_generalizes {d : Document} {text : Text} (hd : d.program.Sound text) {id c : Nat}
    {e inner : Entry} (he : (Tree.ofDocument d).get? id = some e) {owner : Owner}
    (howner : ownerIn? e.node = some owner) (hunder : (Tree.ofDocument d).Under c id)
    (hinner : (Tree.ofDocument d).get? c = some inner) :
    (inner.node.form.isElement = true ∨ inner.node.form.isType = true) ∧
      ∀ parameter new, ∃ n', Generalizes parameter inner.node new e.node n' := by
  induction hunder using Relation.TransGen.head_induction_on generalizing inner with
  | single hlink =>
    obtain ⟨outer, earlier, o, later, houter, hsplit, -, hchild⟩ := Tree.isChildOf_iff.mp hlink
    obtain rfl : e = outer := Option.some.inj (he.symm.trans houter)
    obtain rfl := Option.some.inj (hinner.symm.trans hchild)
    exact exists_generalizes_of_shown (hd.of_holds (Tree.holds_of_get? he)) howner
      (by rw [hsplit]; exact List.mem_append_right _ List.mem_cons_self)
  | head hlink _ ih =>
    obtain ⟨outer, earlier, o, later, houter, hsplit, -, hchild⟩ := Tree.isChildOf_iff.mp hlink
    obtain rfl := Option.some.inj (hinner.symm.trans hchild)
    obtain ⟨hform, hgeneralizes⟩ := ih houter
    obtain ⟨hshown, hretypes⟩ := exists_retypes_of_shown
      (hd.of_holds (Tree.holds_of_get? houter)) hform
      (by rw [hsplit]; exact List.mem_append_right _ List.mem_cons_self)
    refine ⟨hshown, fun parameter new => ?_⟩
    obtain ⟨m', hm'⟩ := hretypes new
    obtain ⟨n', hn'⟩ := hgeneralizes parameter m'
    exact ⟨n', hn'.of_retypes hm'⟩

/-! ## What is kept -/

theorem exists_word {t : Tree} {id : Nat} {e : Entry} (he : t.get? id = some e)
    (h : isPrimitiveType t id = true) : ∃ w, e.node.form = .type (.word w) := by
  unfold isPrimitiveType Tree.form? at h
  rw [he, Option.map_some] at h
  split at h
  · next w hform => exact ⟨w, Option.some.inj hform⟩
  · cases h

/-- A built-in type has no parts. -/
theorem word_eq {text : Text} (hn : n.Sound text) {w : TypeWord}
    (hform : n.form = .type (.word w)) : n = .mk (.type (.word w)) n.span [] := by
  obtain ⟨form, span, parts⟩ := n
  cases hform
  obtain rfl : parts = [] := hn.fits
  rfl

/-- No name of a type occurs in a built-in type. -/
theorem occurrences_word {text : Text} (hn : n.Sound text) {w : TypeWord}
    (hform : n.form = .type (.word w)) (scopes : List Scope) : types.occurrences scopes n = [] := by
  rw [word_eq hn hform]
  rfl

/-- The edits that the refactoring makes: one for the parameter and one for the property. -/
theorem transform_eq_ok {t : Tree} {s : Selection} {target : Target} {e : Entry}
    (htarget : target? t s = some target) (he : t.get? target.type = some e) {x : Transformation}
    (hx : transform t s = .ok x) :
    ∃ written, t.text target.type = .ok written ∧
      Transformation.ofBatch t [parameterEdit t.document target.owner
          (freshName (parameterNames target.owner.parameters)).toList written,
        ⟨e.range, (freshName (parameterNames target.owner.parameters)).toList⟩] s = .ok x := by
  unfold transform at hx
  rw [htarget] at hx
  simp only [he] at hx
  exact Outcome.bind_eq_ok hx

/-- **What a new type parameter captures.** Let the refactoring apply in a document that was parsed.
The declaration that owns the property then has no parameter with the name that is chosen. With any
scopes around it, the new reference leads to the new parameter; a name that occurs elsewhere in the
declaration, be it in its members, in its other parameters or in what it extends, leads to the new
parameter too if it is the chosen one and led out of the declaration before. So all other references
lead to where they led exactly if the chosen name was not free in the declaration. -/
theorem parameter_keeps_references_iff {dialect : Dialect} {text : Text} {d : Document}
    (hd : Document.parse dialect text = .ok d) {s : Selection} {target : Target}
    (htarget : target? (Tree.ofDocument d) s = some target) {name : String}
    (hname : name = freshName (parameterNames target.owner.parameters)) :
    name ∉ parameterNames target.owner.parameters ∧
    ∃ id declaration type, (Tree.ofDocument d).get? id = some declaration ∧
      ownerIn? declaration.node = some target.owner ∧
      (Tree.ofDocument d).get? target.type = some type ∧
      (Tree.ofDocument d).Under target.type id ∧
      (∀ place, ∃ generalized,
        Generalizes (newParameter name place type.node) type.node
          (newReference name type.node.span) declaration.node generalized ∧
        ∀ scopes, ∃ before behind, types.occurrences scopes declaration.node = before ++ behind ∧
          types.occurrences scopes generalized =
            before.map (Occurrence.captured name scopes.length place) ++
              ⟨type.node.span, name, some (scopes.length, [place])⟩ ::
                behind.map (Occurrence.captured name scopes.length place) ∧
          (before.map (Occurrence.captured name scopes.length place) = before ∧
              behind.map (Occurrence.captured name scopes.length place) = behind ↔
            name ∉ types.freeNames [declaration.node])) ∧
      ∀ x, transform (Tree.ofDocument d) s = .ok x →
        ∃ written, (Tree.ofDocument d).text target.type = .ok written ∧
          Transformation.ofBatch (Tree.ofDocument d)
            [parameterEdit d target.owner name.toList written, ⟨type.range, name.toList⟩] s =
              .ok x := by
  subst hname
  have hsound := (Document.parse_eq_ok hd).2
  have hfresh := freshName_not_mem (parameterNames target.owner.parameters)
  obtain ⟨property, outer, id, e, -, -, -, hlink, hprimitive, hfirst, he, howner⟩ :=
    exists_property htarget
  obtain ⟨type, -, htype, -⟩ := hlink.exists_entries
  have hunder : (Tree.ofDocument d).Under target.type id :=
    .head hlink (Tree.mem_ancestors_iff.mp (List.mem_of_find?_eq_some hfirst))
  obtain ⟨w, hword⟩ := exists_word htype hprimitive
  have hnames := occurrences_word (hsound.of_holds (Tree.holds_of_get? htype)) hword
  refine ⟨hfresh, id, e, type, he, howner, htype, hunder, fun place => ?_,
    fun x hx => transform_eq_ok htarget htype hx⟩
  obtain ⟨-, hgeneralizes⟩ := exists_generalizes hsound he howner hunder htype
  obtain ⟨generalized, h⟩ := hgeneralizes (newParameter _ place type.node) (newReference _ _)
  exact ⟨generalized, h, h.exists_occurrences howner hnames hfresh⟩

/-- The name `T` is taken and `T1` is free nowhere: a function binds it for itself. So the references
in the alias lead to where they led, wherever it stands. -/
theorem parameter_keeps_references_bound :
    ∃ d target, Document.parse {} "type A<T> = \x7b x: number; f: <T1>(a: T1) => T; \x7d".toList = .ok d ∧
      target? (Tree.ofDocument d) (.cursor ⟨0, 14⟩) = some target ∧
      freshName (parameterNames target.owner.parameters) = "T1" ∧
      ∃ declaration type, ownerIn? declaration = some target.owner ∧
        ∀ place, ∃ generalized,
          Generalizes (newParameter "T1" place type) type (newReference "T1" type.span) declaration
            generalized ∧
          ∀ scopes, ∃ before behind, types.occurrences scopes declaration = before ++ behind ∧
            types.occurrences scopes generalized =
              before ++ ⟨type.span, "T1", some (scopes.length, [place])⟩ :: behind := by
  obtain ⟨d, hd, hname, hfree⟩ :
      ∃ d, Document.parse {} "type A<T> = \x7b x: number; f: <T1>(a: T1) => T; \x7d".toList = .ok d ∧
        ((target? (Tree.ofDocument d) (.cursor ⟨0, 14⟩)).map fun target =>
          freshName (parameterNames target.owner.parameters)) = some "T1" ∧
        ∀ e ∈ (Tree.ofDocument d).entries, (ownerIn? e.node).isSome = true →
          "T1" ∉ types.freeNames [e.node] :=
    Document.exists_parse (by decide +kernel)
  obtain ⟨target, htarget, hname⟩ := Option.map_eq_some_iff.mp hname
  obtain ⟨-, id, e, type, he, howner, -, -, hkeeps, -⟩ :=
    parameter_keeps_references_iff hd htarget hname.symm
  refine ⟨d, target, hd, htarget, hname, e.node, type.node, howner, fun place => ?_⟩
  obtain ⟨generalized, hgeneralizes, hnames⟩ := hkeeps place
  refine ⟨generalized, hgeneralizes, fun scopes => ?_⟩
  obtain ⟨before, behind, hbefore, hafter, hiff⟩ := hnames scopes
  have hnot := hfree e (Tree.mem_entries_of_get? he) (by rw [howner]; rfl)
  obtain ⟨hsame, hsame'⟩ := hiff.mpr hnot
  rw [hsame, hsame'] at hafter
  exact ⟨before, behind, hbefore, hafter⟩

/-- A reference by the chosen name to something outside is captured: it leads to the new parameter in
what is written. -/
theorem parameter_captures_reference :
    ∃ d target x text d', Document.parse {} "interface A \x7b x: number; y: T; \x7d".toList = .ok d ∧
      target? (Tree.ofDocument d) (.cursor ⟨0, 14⟩) = some target ∧
      freshName (parameterNames target.owner.parameters) = "T" ∧
      transform (Tree.ofDocument d) (.cursor ⟨0, 14⟩) = .ok x ∧
      x.output d.text (.cursor ⟨0, 14⟩) = .ok text ∧
      text = "interface A<T = number> \x7b x: T; y: T; \x7d".toList ∧
      Document.parse {} text = .ok d' ∧
      types.occurrences [] d.program = [⟨⟨28, 29⟩, "T", none⟩] ∧
      types.occurrences [] d'.program =
        [⟨⟨29, 30⟩, "T", some (1, [⟨12, 22⟩])⟩, ⟨⟨35, 36⟩, "T", some (1, [⟨12, 22⟩])⟩] := by
  obtain ⟨d, hd, hbefore, hextract⟩ :
      ∃ d, Document.parse {} "interface A \x7b x: number; y: T; \x7d".toList = .ok d ∧
        types.occurrences [] d.program = [⟨⟨28, 29⟩, "T", none⟩] ∧
        ((target? (Tree.ofDocument d) (.cursor ⟨0, 14⟩)).map fun target =>
            freshName (parameterNames target.owner.parameters),
          (transform (Tree.ofDocument d) (.cursor ⟨0, 14⟩)).toOption.bind fun x =>
            (x.output d.text (.cursor ⟨0, 14⟩)).toOption) =
          (some "T", some "interface A<T = number> \x7b x: T; y: T; \x7d".toList) :=
    Document.exists_parse (by decide +kernel)
  obtain ⟨d', hd', hafter⟩ :
      ∃ d', Document.parse {} "interface A<T = number> \x7b x: T; y: T; \x7d".toList = .ok d' ∧
        types.occurrences [] d'.program =
          [⟨⟨29, 30⟩, "T", some (1, [⟨12, 22⟩])⟩, ⟨⟨35, 36⟩, "T", some (1, [⟨12, 22⟩])⟩] :=
    Document.exists_parse (by decide +kernel)
  obtain ⟨htarget, houtput⟩ := Prod.mk.inj hextract
  obtain ⟨target, htarget, hname⟩ := Option.map_eq_some_iff.mp htarget
  obtain ⟨x, hx, hout⟩ := Option.bind_eq_some_iff.mp houtput
  exact ⟨d, target, x, _, d', hd, htarget, hname, Outcome.eq_ok_of_toOption hx,
    Outcome.eq_ok_of_toOption hout, rfl, hd', hbefore, hafter⟩

end GenericType

end Retouch

import Mathlib.Data.List.Nodup
import Retouch.Config.Load

/-!
# Layers of configuration values

Values are merged key by key. For that to be a statement about keys, no table may hold a key twice,
and files and variables make no such table.

- `Value.Tidy`: no table in a value holds a key twice, and nothing in it is null.
- `Toml.read?_tidy`, `Environment.readValue_tidy`: what is read is tidy.
- `Value.leaf?_merge`: what a key of a section is after a merge.
-/

namespace Retouch.Config

namespace Value

/-- No table holds a key twice, and nothing is null. -/
inductive Tidy : Value → Prop where
  | leaf {v : Value} (hnull : v ≠ .null) (htable : ∀ es, v ≠ .table es) : Tidy v
  | node {es : List (String × Value)} (hkeys : (es.map Prod.fst).Nodup)
      (hvalues : ∀ e ∈ es, Tidy e.2) : Tidy (.table es)

variable {es olds news : List (String × Value)} {k key : String} {v w old new : Value}

theorem Tidy.keys_nodup (h : (table es).Tidy) : (es.map Prod.fst).Nodup := by
  cases h with
  | leaf _ htable => exact absurd rfl (htable es)
  | node hkeys _ => exact hkeys

theorem Tidy.of_mem (h : (table es).Tidy) {e : String × Value} (he : e ∈ es) : e.2.Tidy := by
  cases h with
  | leaf _ htable => exact absurd rfl (htable es)
  | node _ hvalues => exact hvalues e he

theorem tidy_empty : (table []).Tidy := .node List.nodup_nil nofun

/-! ## Entries -/

theorem lookup_cons (e : String × Value) :
    lookup k (e :: es) = if e.1 = k then some e.2 else lookup k es := by
  simp [lookup]

theorem mem_of_lookup (h : lookup k es = some v) : (k, v) ∈ es := by
  induction es with
  | nil => cases h
  | cons e es ih =>
    rw [lookup_cons] at h
    split at h
    case isTrue hk =>
      cases h
      cases hk
      exact List.mem_cons_self
    case isFalse => exact List.mem_cons_of_mem _ (ih h)

theorem lookup_eq_none (h : k ∉ es.map Prod.fst) : lookup k es = none := by
  induction es with
  | nil => rfl
  | cons e es ih =>
    rw [List.map_cons, List.mem_cons, not_or] at h
    rw [lookup_cons, if_neg (Ne.symm h.1), ih h.2]

theorem lookup_insert : lookup k (insert key v es) = if key = k then some v else lookup k es := by
  induction es with
  | nil => simp [insert, lookup]
  | cons e es ih =>
    by_cases he : e.1 = key
    · by_cases hk : key = k <;> simp [insert, lookup, he, hk]
    · by_cases hk : key = k
      · subst hk
        simp [insert, lookup, he, ih]
      · simp [insert, lookup, he, ih, hk]

theorem mem_insert {e : String × Value} (h : e ∈ insert key v es) : e.2 = v ∨ e ∈ es := by
  induction es with
  | nil => exact .inl (by rw [List.mem_singleton.mp h])
  | cons d es ih =>
    rw [insert] at h
    split at h
    all_goals
      rcases List.mem_cons.mp h with rfl | h
    · exact .inl rfl
    · exact .inr (List.mem_cons_of_mem _ h)
    · exact .inr List.mem_cons_self
    · exact (ih h).imp_right (List.mem_cons_of_mem _)

theorem mem_keys_insert (h : k ∈ (insert key v es).map Prod.fst) :
    k = key ∨ k ∈ es.map Prod.fst := by
  by_contra hout
  rw [not_or] at hout
  obtain ⟨e, he, rfl⟩ := List.mem_map.mp h
  induction es with
  | nil =>
    rw [List.mem_singleton.mp he] at hout
    exact hout.1 rfl
  | cons d es ih => grind [insert]

theorem insert_keys_nodup (h : (es.map Prod.fst).Nodup) :
    ((insert key v es).map Prod.fst).Nodup := by
  induction es with
  | nil => exact List.nodup_singleton _
  | cons d es ih =>
    rw [List.map_cons, List.nodup_cons] at h
    rw [insert]
    split
    · exact List.nodup_cons.mpr h
    case isFalse hd =>
      refine List.nodup_cons.mpr ⟨fun hmem => ?_, ih h.2⟩
      rcases mem_keys_insert hmem with rfl | hmem
      · exact hd (beq_self_eq_true _)
      · exact h.1 hmem

theorem Tidy.insert (h : (table es).Tidy) (hv : v.Tidy) :
    (table (Value.insert key v es)).Tidy := by
  refine .node (insert_keys_nodup h.keys_nodup) fun e he => ?_
  rcases mem_insert he with rfl | he
  · exact hv
  · exact h.of_mem he

/-! ## Merging -/

/-- A later value above an earlier one, if there is one. -/
def above (new : Value) : Option Value → Value
  | some old => old.merge new
  | none => new

theorem mergeEntries_cons (e : String × Value) :
    mergeEntries olds (e :: news) =
      mergeEntries (Value.insert e.1 (e.2.above (lookup e.1 olds)) olds) news := by
  rw [mergeEntries]
  cases lookup e.1 olds <;> rfl

theorem merge_table : (table olds).merge (table news) = table (mergeEntries olds news) := rfl

theorem merge_of_not_table (h : ∀ es, new ≠ .table es) : old.merge new = new := by
  cases new with
  | table es => exact absurd rfl (h es)
  | _ => rfl

theorem Tidy.merge (hnew : new.Tidy) (hold : old.Tidy) : (old.merge new).Tidy := by
  induction hnew generalizing old with
  | leaf hnull htable =>
    rw [merge_of_not_table htable]
    exact .leaf hnull htable
  | @node news hkeys hvalues ih =>
    cases old with
    | table olds =>
      rw [merge_table]
      clear hkeys
      -- entry by entry, the table so far stays tidy
      induction news generalizing olds with
      | nil => exact hold
      | cons e news ihnews =>
        rw [mergeEntries_cons]
        rw [List.forall_mem_cons] at hvalues ih
        refine ihnews hvalues.2 ih.2 _ (hold.insert ?_)
        cases hlook : lookup e.1 olds with
        | none => exact hvalues.1
        | some old => exact ih.1 (hold.of_mem (mem_of_lookup hlook))
    | _ => exact .node hkeys hvalues

/-- What a key is after a merge: the earlier value, if the later table does not hold the key. -/
theorem lookup_mergeEntries (h : (news.map Prod.fst).Nodup) :
    lookup k (mergeEntries olds news) =
      match lookup k news with
      | none => lookup k olds
      | some v => some (v.above (lookup k olds)) := by
  induction news generalizing olds with
  | nil => rfl
  | cons e news ih =>
    rw [List.map_cons, List.nodup_cons] at h
    rw [mergeEntries_cons, ih h.2, lookup_cons, lookup_insert]
    by_cases hk : e.1 = k
    · subst hk
      simp [lookup_eq_none h.1]
    · simp [hk]

/-! ## Sections -/

/-- Whether a value is a table. -/
def isTable : Value → Bool
  | .table _ => true
  | _ => false

/-- What stands under a key, if the value is a table. -/
def field? (k : String) : Value → Option Value
  | .table es => lookup k es
  | _ => none

/-- What stands under a key of a section. -/
def leaf? (s k : String) (v : Value) : Option Value := (v.field? s).bind (field? k)

/-- A section is a table if it is there. -/
def SectionTabled (s : String) (v : Value) : Prop := ∀ x, v.field? s = some x → x.isTable = true

instance (s : String) (v : Value) : Decidable (v.SectionTabled s) :=
  match h : v.field? s with
  | none => isTrue fun x hx => by rw [h] at hx; cases hx
  | some y =>
    if hy : y.isTable = true then isTrue fun x hx => by rw [h] at hx; cases hx; exact hy
    else isFalse fun hall => hy (hall y h)

theorem exists_of_isTable (h : v.isTable = true) : ∃ es, v = .table es := by
  cases v with
  | table es => exact ⟨es, rfl⟩
  | _ => cases h

theorem isTable_merge (h : old.isTable = true) (h' : new.isTable = true) :
    (old.merge new).isTable = true := by
  obtain ⟨olds, rfl⟩ := exists_of_isTable h
  obtain ⟨news, rfl⟩ := exists_of_isTable h'
  rfl

theorem isTable_above (hv : v.isTable = true) (old : Option Value) :
    (v.above old).isTable = true := by
  obtain ⟨es, rfl⟩ := exists_of_isTable hv
  rcases old with _ | (_ | _ | _ | _ | _ | _ | _) <;> rfl

theorem above_of_not_isTable (hv : v.isTable = false) (old : Option Value) : v.above old = v := by
  cases old with
  | none => rfl
  | some old => exact merge_of_not_table fun es hes => by rw [hes] at hv; cases hv

theorem Tidy.field? (h : v.Tidy) (hw : v.field? k = some w) : w.Tidy := by
  cases v with
  | table es => exact h.of_mem (mem_of_lookup hw)
  | _ => cases hw

theorem field?_merge (hold : old.isTable = true) (hnew : new.isTable = true) (htidy : new.Tidy) :
    (old.merge new).field? k =
      match new.field? k with
      | none => old.field? k
      | some v => some (v.above (old.field? k)) := by
  obtain ⟨olds, rfl⟩ := exists_of_isTable hold
  obtain ⟨news, rfl⟩ := exists_of_isTable hnew
  exact lookup_mergeEntries htidy.keys_nodup

theorem isSome_field?_merge (hold : old.isTable = true) (hnew : new.isTable = true)
    (htidy : new.Tidy) (h : (old.field? k).isSome = true) :
    ((old.merge new).field? k).isSome = true := by
  rw [field?_merge hold hnew htidy]
  cases new.field? k with
  | none => exact h
  | some v => rfl

variable {s : String}

theorem Tidy.leaf? (h : v.Tidy) (hw : v.leaf? s k = some w) : w.Tidy := by
  obtain ⟨y, hy, hw⟩ := Option.bind_eq_some_iff.mp hw
  exact (h.field? hy).field? hw

theorem SectionTabled.merge (hold : old.isTable = true) (hnew : new.isTable = true)
    (htidy : new.Tidy) (hs : old.SectionTabled s) (hs' : new.SectionTabled s) :
    (old.merge new).SectionTabled s := by
  intro x hx
  rw [field?_merge hold hnew htidy] at hx
  cases hsection : new.field? s with
  | none =>
    rw [hsection] at hx
    exact hs x hx
  | some y =>
    rw [hsection] at hx
    cases hx
    cases hold : old.field? s with
    | none => exact hs' y hsection
    | some z => exact isTable_merge (hs z hold) (hs' y hsection)

/-- What a key of a section is after a merge of tables, where the section is a table in both. -/
theorem leaf?_merge (hold : old.isTable = true) (hnew : new.isTable = true) (htidy : new.Tidy)
    (hs : old.SectionTabled s) (hs' : new.SectionTabled s) :
    (old.merge new).leaf? s k =
      match new.leaf? s k with
      | none => old.leaf? s k
      | some v => some (v.above (old.leaf? s k)) := by
  simp only [leaf?, field?_merge hold hnew htidy]
  cases hsection : new.field? s with
  | none => rfl
  | some y =>
    cases hbefore : old.field? s with
    | none =>
      change y.field? k = match y.field? k with | none => none | some v => some v
      cases y.field? k <;> rfl
    | some z =>
      exact field?_merge (hs z hbefore) (hs' y hsection) (htidy.field? hsection)

/-- In layers of tables, the last one that holds a key of a section decides what it is, unless
that is a table. -/
theorem leaf?_merge_merge {base file env : Value}
    (hbase : base.isTable = true) (hfile : file.isTable = true) (henv : env.isTable = true)
    (htidy : file.Tidy) (htidy' : env.Tidy) (hs : base.SectionTabled s)
    (hs' : file.SectionTabled s) (hs'' : env.SectionTabled s)
    (hw : ((base.merge file).merge env).leaf? s k = some w) (hplain : w.isTable = false) :
    ((env.leaf? s k).or (file.leaf? s k)).or (base.leaf? s k) = some w := by
  have habove {u : Value} {old : Option Value} (hu : u.above old = w) : u = w := by
    cases htable : u.isTable with
    | true =>
      rw [← hu, isTable_above htable] at hplain
      cases hplain
    | false => rw [← hu, above_of_not_isTable htable]
  rw [leaf?_merge (isTable_merge hbase hfile) henv htidy' (hs.merge hbase hfile htidy hs') hs'',
    leaf?_merge hbase hfile htidy hs hs'] at hw
  cases hlast : env.leaf? s k with
  | some u =>
    rw [hlast] at hw
    exact congrArg some (habove (Option.some.inj hw))
  | none =>
    rw [hlast] at hw
    cases hmiddle : file.leaf? s k with
    | some u =>
      rw [hmiddle] at hw
      exact congrArg some (habove (Option.some.inj hw))
    | none =>
      rw [hmiddle] at hw
      exact hw

end Value

/-! ## Files -/

namespace Toml

/-- No table of an item holds a key twice. Tables under a repeated heading become a list, which is
never merged. -/
inductive Item.Tidy : Item → Prop where
  | leaf {v : Value} (h : v.Tidy) : Tidy (.value v)
  | node {origin : Origin} {es : Entries} (hkeys : (es.map Prod.fst).Nodup)
      (hitems : ∀ e ∈ es, Tidy e.2) : Tidy (.table origin es)
  | row {elements : List Entries} : Tidy (.tables elements)

/-- No key is there twice, in the entries or below them. -/
structure TidyEntries (es : Entries) : Prop where
  keys_nodup : (es.map Prod.fst).Nodup
  items : ∀ e ∈ es, e.2.Tidy

variable {es es' : Entries} {k : String} {item : Item} {v : Value} {path : List String}

theorem tidyEntries_nil : TidyEntries [] := ⟨List.nodup_nil, nofun⟩

theorem TidyEntries.table (h : TidyEntries es) (origin : Origin) : (Item.table origin es).Tidy :=
  .node h.keys_nodup h.items

theorem tidyEntries_of_table {origin : Origin} (h : (Item.table origin es).Tidy) :
    TidyEntries es := by
  cases h with
  | node hkeys hitems => exact ⟨hkeys, hitems⟩

theorem TidyEntries.find (h : TidyEntries es) (hfind : find k es = some item) : item.Tidy := by
  induction es with
  | nil => cases hfind
  | cons e es ih =>
    rw [Toml.find] at hfind
    split at hfind
    · cases hfind
      exact h.items _ List.mem_cons_self
    · exact ih ⟨(List.nodup_cons.mp h.keys_nodup).2, fun e he => h.items e (.tail _ he)⟩ hfind

theorem mem_keys_put {key : String} (h : k ∈ (put key item es).map Prod.fst) :
    k = key ∨ k ∈ es.map Prod.fst := by
  induction es with
  | nil => exact .inl (List.mem_singleton.mp h)
  | cons e es ih =>
    rw [put] at h
    split at h
    · exact .inr h
    · rcases List.mem_cons.mp h with rfl | h
      · exact .inr List.mem_cons_self
      · exact (ih h).imp_right (List.mem_cons_of_mem _)

theorem TidyEntries.put (h : TidyEntries es) (hitem : item.Tidy) :
    TidyEntries (Toml.put k item es) := by
  induction es with
  | nil => exact ⟨List.nodup_singleton _, List.forall_mem_singleton.mpr hitem⟩
  | cons e es ih =>
    have hkeys := List.nodup_cons.mp h.keys_nodup
    have hitems := List.forall_mem_cons.mp h.items
    rw [Toml.put]
    split
    · exact ⟨List.nodup_cons.mpr hkeys, List.forall_mem_cons.mpr ⟨hitem, hitems.2⟩⟩
    case isFalse hk =>
      have hrest := ih ⟨hkeys.2, hitems.2⟩
      refine ⟨List.nodup_cons.mpr ⟨fun hmem => ?_, hrest.keys_nodup⟩,
        List.forall_mem_cons.mpr ⟨hitems.1, hrest.items⟩⟩
      rcases mem_keys_put hmem with rfl | hmem
      · exact hk (beq_self_eq_true _)
      · exact hkeys.1 hmem

/-- A change below a key leaves entries tidy if it leaves the table there tidy. -/
theorem TidyEntries.put_table {origin : Origin} {inner : Option Entries} (h : TidyEntries es)
    (hinner : ∀ inner', inner = some inner' → TidyEntries inner')
    (heq : (inner.map fun inner => Toml.put k (.table origin inner) es) = some es') :
    TidyEntries es' := by
  obtain ⟨inner', hsome, rfl⟩ := Option.map_eq_some_iff.mp heq
  exact h.put ((hinner inner' hsome).table origin)

theorem TidyEntries.put_tables {others : List Entries} {last : Option Entries}
    (h : TidyEntries es)
    (heq : (last.map fun last => Toml.put k (.tables (last :: others)) es) = some es') :
    TidyEntries es' := by
  obtain ⟨last', -, rfl⟩ := Option.map_eq_some_iff.mp heq
  exact h.put .row

theorem TidyEntries.assignIn {takesKeys : Bool} (h : TidyEntries es) (hv : v.Tidy)
    (heq : Toml.assignIn v takesKeys path es = some es') : TidyEntries es' := by
  fun_induction Toml.assignIn v takesKeys path es generalizing es' with
  | case1 | case3 | case5 | case8 => cases heq
  | case2 k es =>
    cases heq
    exact h.put (.leaf hv)
  | case4 takesKeys k rest es _ hfind ih =>
    exact h.put_table (fun inner' hinner => ih tidyEntries_nil hinner) heq
  | case6 takesKeys k rest es _ origin inner _ hfind ih =>
    exact h.put_table (fun inner' hinner => ih (tidyEntries_of_table (h.find hfind)) hinner) heq
  | case7 => exact h.put_tables heq

theorem TidyEntries.change {f : Entries → Option Entries} (h : TidyEntries es)
    (hf : ∀ es es', TidyEntries es → f es = some es' → TidyEntries es')
    (heq : Toml.change f path es = some es') : TidyEntries es' := by
  fun_induction Toml.change f path es generalizing es' with
  | case1 es => exact hf es es' h heq
  | case2 k rest es origin inner hfind ih =>
    exact h.put_table (fun inner' hinner => ih (tidyEntries_of_table (h.find hfind)) hinner) heq
  | case3 => exact h.put_tables heq
  | case4 => cases heq

theorem TidyEntries.openTable (h : TidyEntries es) (heq : Toml.openTable path es = some es') :
    TidyEntries es' := by
  fun_induction Toml.openTable path es generalizing es' with
  | case1 | case4 | case8 => cases heq
  | case2 k es =>
    cases heq
    exact h.put (tidyEntries_nil.table _)
  | case3 k es inner hfind =>
    cases heq
    exact h.put ((tidyEntries_of_table (h.find hfind)).table _)
  | case5 k rest es _ hfind ih =>
    exact h.put_table (fun inner' hinner => ih tidyEntries_nil hinner) heq
  | case6 k rest es _ origin inner hfind ih =>
    exact h.put_table (fun inner' hinner => ih (tidyEntries_of_table (h.find hfind)) hinner) heq
  | case7 => exact h.put_tables heq

theorem TidyEntries.openElement (h : TidyEntries es) (heq : Toml.openElement path es = some es') :
    TidyEntries es' := by
  fun_induction Toml.openElement path es generalizing es' with
  | case1 | case4 | case8 => cases heq
  | case2 | case3 =>
    cases heq
    exact h.put .row
  | case5 k rest es _ hfind ih =>
    exact h.put_table (fun inner' hinner => ih tidyEntries_nil hinner) heq
  | case6 k rest es _ origin inner hfind ih =>
    exact h.put_table (fun inner' hinner => ih (tidyEntries_of_table (h.find hfind)) hinner) heq
  | case7 => exact h.put_tables heq

theorem entryValues_eq_map (es : Entries) :
    entryValues es = es.map fun e => (e.1, e.2.toValue) := by
  induction es with
  | nil => rfl
  | cons e es ih => rw [entryValues, ih, List.map_cons]

theorem Item.Tidy.toValue (h : item.Tidy) : item.toValue.Tidy := by
  induction h with
  | leaf h => exact h
  | @node origin es hkeys _ ih =>
    rw [Item.toValue, entryValues_eq_map]
    refine .node (by simpa [Function.comp_def] using hkeys) fun e he => ?_
    obtain ⟨d, hd, rfl⟩ := List.mem_map.mp he
    exact ih d hd
  | row => exact .leaf (by rw [Item.toValue]; nofun) fun _ => by rw [Item.toValue]; nofun

theorem TidyEntries.entryValues (h : TidyEntries es) :
    (Value.table (Toml.entryValues es)).Tidy :=
  (h.table .heading).toValue

theorem exists_of_inRange {n : Int} (h : inRange n = some v) : ∃ m, v = .int m := by
  rw [inRange] at h
  split at h
  · exact ⟨n, (Option.some.inj h).symm⟩
  · cases h

theorem exists_of_integer? {text : Text} (h : integer? text = some v) : ∃ m, v = .int m := by
  rw [integer?.eq_def] at h
  split at h
  all_goals
    obtain ⟨n, -, hn⟩ := Option.bind_eq_some_iff.mp h
    exact exists_of_inRange hn

theorem scalar?_tidy {text : Text} (h : scalar? text = some v) : v.Tidy := by
  rw [scalar?.eq_def] at h
  split at h
  · cases h
    exact .leaf nofun nofun
  split at h
  · cases h
    exact .leaf nofun nofun
  split at h
  · cases h
    exact .node (List.nodup_singleton _) (List.forall_mem_singleton.mpr (.leaf nofun nofun))
  split at h
  case h_1 hinteger =>
    cases h
    obtain ⟨m, rfl⟩ := exists_of_integer? hinteger
    exact .leaf nofun nofun
  case h_2 =>
    have hreal : v = .real := by grind
    exact hreal ▸ .leaf nofun nofun

theorem exists_of_items? {fuel depth : Nat} {text rest : Text} {done : List Value}
    (h : items? fuel depth text done = some (v, rest)) : ∃ items, v = .list items := by
  induction fuel generalizing depth text done with
  | zero => simp [items?] at h
  | succ fuel ih =>
    rw [items?] at h
    split at h
    · cases h
    · cases h
      exact ⟨_, rfl⟩
    · split at h
      · cases h
      · split at h
        · exact ih h
        · cases h
          exact ⟨_, rfl⟩
        · cases h

/-- The values and the fields of a table on one line are read by turns. -/
theorem valueOf?_tidy_and_fields?_tidy (fuel : Nat) :
    (∀ depth text v rest, valueOf? fuel depth text = some (v, rest) → v.Tidy) ∧
      ∀ depth text done v rest, TidyEntries done →
        fields? fuel depth text done = some (v, rest) → v.Tidy := by
  induction fuel with
  | zero => exact ⟨by simp [valueOf?], by simp [fields?]⟩
  | succ fuel ih =>
    constructor
    · intro depth text v rest h
      rw [valueOf?.eq_def] at h
      dsimp only at h
      split at h
      case h_1 | h_2 =>
        obtain ⟨found, -, hfound⟩ := Option.map_eq_some_iff.mp h
        cases hfound
        exact .leaf nofun nofun
      case h_3 =>
        obtain ⟨items, rfl⟩ := exists_of_items? h
        exact .leaf nofun nofun
      case h_4 =>
        split at h
        · cases h
          exact Value.tidy_empty
        · exact ih.2 _ _ _ _ _ tidyEntries_nil h
      case h_5 =>
        obtain ⟨found, hscalar, hfound⟩ := Option.map_eq_some_iff.mp h
        cases hfound
        exact scalar?_tidy hscalar
    · intro depth text done v rest hdone h
      rw [fields?] at h
      split at h
      · split at h
        · cases h
        case h_2 hvalue =>
          split at h
          · cases h
          case h_2 hassign =>
            have hdone := hdone.assignIn (ih.1 _ _ _ _ hvalue) hassign
            split at h
            · exact ih.2 _ _ _ _ _ hdone h
            · cases h
              exact hdone.entryValues
            · cases h
      · cases h

theorem value?_tidy {text rest : Text} (h : value? text = some (v, rest)) : v.Tidy :=
  (valueOf?_tidy_and_fields?_tidy _).1 _ _ _ _ h

theorem line?_tidy {text rest : Text} (h : line? text = some (.setting path v, rest)) : v.Tidy := by
  rw [line?.eq_def] at h
  split at h
  · split at h <;> cases h
  · split at h <;> cases h
  · split at h
    · obtain ⟨found, hvalue, hfound⟩ := Option.map_eq_some_iff.mp h
      cases hfound
      exact value?_tidy hvalue
    · cases h

/-- Reading line after line keeps entries tidy. -/
theorem TidyEntries.lines? {fuel : Nat} {text : Text} (h : TidyEntries es)
    (heq : Toml.lines? fuel text path es = some es') : TidyEntries es' := by
  induction fuel generalizing text path es with
  | zero => cases heq
  | succ fuel ih =>
    rw [Toml.lines?] at heq
    split at heq
    · cases heq
    · cases heq
      exact h
    · split at heq
      · cases heq
      case h_2 hline =>
        split at heq
        · cases heq
        · split at heq
          all_goals obtain ⟨next, hnext, heq⟩ := Option.bind_eq_some_iff.mp heq
          · exact ih (h.openTable hnext) heq
          · exact ih (h.openElement hnext) heq
          · refine ih (h.change (fun es es' hes => ?_) hnext) heq
            exact hes.assignIn (line?_tidy hline)

/-- A file that can be read is a table, and sets no key twice. -/
theorem read?_tidy {text : Text} (h : read? text = some v) : v.isTable = true ∧ v.Tidy := by
  obtain ⟨es, hlines, rfl⟩ := Option.map_eq_some_iff.mp h
  exact ⟨rfl, (tidyEntries_nil.lines? hlines).entryValues⟩

end Toml

/-! ## Variables -/

namespace Environment

variable {v : Value}

theorem scalar_tidy (text : Text) : (scalar text).Tidy := by
  have hplain : scalar text ≠ .null ∧ ∀ es, scalar text ≠ .table es := by
    rw [scalar]
    grind
  exact .leaf hplain.1 hplain.2

theorem exists_of_items? {fuel : Nat} {text rest : Text} {done : List Value}
    (h : items? fuel text done = some (v, rest)) : ∃ items, v = .list items := by
  induction fuel generalizing text done with
  | zero => simp [items?] at h
  | succ fuel ih =>
    rw [items?.eq_def] at h
    dsimp only at h
    split at h
    · cases h
      exact ⟨_, rfl⟩
    · split at h
      · exact ih h
      · cases h
        exact ⟨_, rfl⟩
      · cases h

theorem value?_tidy_and_fields?_tidy (fuel : Nat) :
    (∀ text v rest, value? fuel text = some (v, rest) → v.Tidy) ∧
      ∀ text done v rest, (Value.table done).Tidy → fields? fuel text done = some (v, rest) →
        v.Tidy := by
  induction fuel with
  | zero => exact ⟨by simp [value?], by simp [fields?]⟩
  | succ fuel ih =>
    constructor
    · intro text v rest h
      rw [value?] at h
      obtain ⟨found, hfound, heq⟩ := Option.map_eq_some_iff.mp h
      cases heq
      clear h
      split at hfound
      case h_1 | h_2 | h_6 =>
        cases hfound
        exact .leaf nofun nofun
      case h_3 => exact ih.2 _ _ _ _ Value.tidy_empty hfound
      case h_4 =>
        obtain ⟨items, hitems⟩ := exists_of_items? hfound
        exact hitems ▸ .leaf nofun nofun
      case h_5 =>
        obtain ⟨read, -, hread⟩ := Option.map_eq_some_iff.mp hfound
        cases hread
        exact .leaf nofun nofun
      case h_7 => cases hfound
      case h_8 =>
        cases hfound
        exact scalar_tidy _
    · intro text done v rest hdone h
      rw [fields?.eq_def] at h
      dsimp only at h
      split at h
      · cases h
        exact hdone
      · split at h
        · cases h
        · split at h
          · split at h
            case h_1 hvalue => exact ih.2 _ _ _ _ (hdone.insert (ih.1 _ _ _ hvalue)) h
            case h_2 hvalue =>
              cases h
              exact hdone.insert (ih.1 _ _ _ hvalue)
            · cases h
          · cases h

/-- The value of a variable sets no key twice. -/
theorem readValue_tidy (text : Text) : (readValue text).Tidy := by
  rw [readValue]
  split
  case h_1 hvalue => exact (value?_tidy_and_fields?_tidy _).1 _ _ _ hvalue
  case h_2 => exact .leaf nofun nofun

end Environment

end Retouch.Config

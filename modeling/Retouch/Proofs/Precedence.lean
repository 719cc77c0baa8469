import Mathlib
import Retouch.Proofs.Layers
import Retouch.Proofs.Lines

/-!
# Which source of a setting counts

A setting comes from the environment, from a file or from the defaults. The words in the name of a
variable are joined with capital letters, as in the keys of settings, but then all letters are made
small again. Three of the seven keys have a capital letter: no variable sets these, whatever its name.

- `Environment.lowered_camelCased`: small letters undo what capital ones tell of the words of a name.
- `Environment.setting?`: what the environment says about a key.
- `Setting`: the seven settings, with the section and the key of each.
- `find_precedence`: the environment wins over the file and the file over the defaults, and which
  settings the environment reaches.
-/

namespace Retouch.Config

/-! ## The environment -/

namespace Environment

variable {env : List (String × String)} {s k : String} {path : List String} {v : Value}

/-- What the environment says about a key of a section: the value of the last variable whose name
spells it. -/
def setting? (env : List (String × String)) (s k : String) : Option Value :=
  (env.reverse.find? fun x => keyPath? x.1 == some [s, k]).map fun x => readValue x.2.toList

theorem layer_concat (env : List (String × String)) (x : String × String) :
    layer (env ++ [x]) =
      match keyPath? x.1 with
      | none => layer env
      | some path => (layer env).merge (.nest path (readValue x.2.toList)) := by
  rw [layer, List.foldl_append]
  rfl

theorem setting?_concat (env : List (String × String)) (x : String × String) :
    setting? (env ++ [x]) s k =
      if keyPath? x.1 = some [s, k] then some (readValue x.2.toList) else setting? env s k := by
  by_cases hx : keyPath? x.1 = some [s, k] <;> simp [setting?, hx]

theorem lowered_append (x y : Text) : lowered (x ++ y) = lowered x ++ lowered y :=
  List.map_append

/-- In small letters, the words of a name are joined as if underscores were just left out. -/
theorem lowered_camelFrom {name : Text} (h : ∀ c ∈ name, c.toNat < 128) (started capital : Bool) :
    lowered (camelFrom started capital name) = lowered (name.filter (· != '_')) := by
  induction name generalizing started capital with
  | nil => rfl
  | cons c rest ih =>
    obtain ⟨hc, hrest⟩ := List.forall_mem_cons.mp h
    rw [camelFrom]
    by_cases hline : (c == '_') = true
    · rw [if_pos hline, List.filter_cons_of_neg (by simpa using hline), ih hrest]
    · rw [if_neg hline, List.filter_cons_of_pos (by simpa using hline)]
      have hletter : lowered (if capital then CaseMap.upper c else CaseMap.lower c) =
          [c.toLower] := by
        unfold CaseMap.upper CaseMap.lower
        rw [if_pos hc, if_pos hc]
        cases capital with
        | true => exact congrArg ([·]) (Char.toLower_toUpper_eq_toLower c)
        | false => exact congrArg ([·]) (Char.toLower_toLower_eq_toLower c)
      rw [lowered_append, hletter, ih hrest]
      rfl

theorem lowered_camelCased {name : Text} (h : ∀ c ∈ name, c.toNat < 128) :
    lowered (camelCased name) = lowered (name.filter (· != '_')) :=
  lowered_camelFrom h false false

theorem exists_of_keyPath? {name : String} (h : keyPath? name = some path) :
    ∃ text, path = (Text.splitOnChar '.' text).map fun part => String.ofList (lowered part) := by
  obtain ⟨parts, hparts, rfl⟩ := Option.map_eq_some_iff.mp h
  rw [spelled?] at hparts
  split at hparts
  · cases hparts
  · dsimp only at hparts
    split at hparts
    · cases hparts
    · cases hparts
      exact ⟨_, rfl⟩

theorem keyPath?_ne_nil {name : String} : keyPath? name ≠ some [] := by
  intro h
  obtain ⟨text, hpath⟩ := exists_of_keyPath? h
  have hpos := Text.length_splitOnChar_pos '.' text
  rw [List.map_eq_nil_iff.mp hpath.symm] at hpos
  exact absurd hpos (by decide)

/-- The parts of a key have no capital letter. -/
theorem not_isUpper_of_keyPath? {name part : String} (h : keyPath? name = some path)
    (hpart : part ∈ path) : part.toList.any Char.isUpper = false := by
  obtain ⟨text, rfl⟩ := exists_of_keyPath? h
  obtain ⟨piece, -, rfl⟩ := List.mem_map.mp hpart
  simp [lowered, List.any_map, Char.isUpper_toLower_eq_false]

/-! ### Its layer -/

theorem isTable_nest (hpath : path ≠ []) : (Value.nest path v).isTable = true := by
  cases path with
  | nil => exact absurd rfl hpath
  | cons k rest => rfl

theorem tidy_nest (hv : v.Tidy) : (Value.nest path v).Tidy := by
  induction path with
  | nil => exact hv
  | cons k rest ih => exact .node (List.nodup_singleton _) (List.forall_mem_singleton.mpr ih)

theorem sectionTabled_nest (hpath : path ≠ []) (hs : path ≠ [s]) :
    (Value.nest path v).SectionTabled s := by
  intro x hx
  match path with
  | [key] =>
    have hkey : key ≠ s := fun hkey => hs (by rw [hkey])
    simp [Value.nest, Value.field?, Value.lookup, hkey] at hx
  | _ :: key :: rest =>
    have hx : Value.nest (key :: rest) v = x := by
      simp only [Value.nest, Value.field?, Value.lookup] at hx
      split at hx
      · exact Option.some.inj hx
      · cases hx
    exact hx ▸ isTable_nest (List.cons_ne_nil _ _)

/-- What a single variable says about a key. -/
theorem leaf?_nest {first second : String} {below : List String} :
    (Value.nest (first :: second :: below) v).leaf? s k =
      if first = s ∧ second = k then some (Value.nest below v) else none := by
  by_cases hs : first = s <;> by_cases hk : second = k <;>
    simp [Value.leaf?, Value.field?, Value.nest, Value.lookup, hs, hk]

theorem leaf?_nest_singleton {first : String} (h : first ≠ s) :
    (Value.nest [first] v).leaf? s k = none := by
  simp [Value.leaf?, Value.field?, Value.nest, Value.lookup, h]

theorem layer_tabled (env : List (String × String)) :
    (layer env).isTable = true ∧ (layer env).Tidy := by
  induction env using List.reverseRecOn with
  | nil => exact ⟨rfl, Value.tidy_empty⟩
  | append_singleton env x ih =>
    rw [layer_concat]
    split
    · exact ih
    case h_2 path hpath =>
      have hne : path ≠ [] := fun hnil => keyPath?_ne_nil (hnil ▸ hpath)
      exact ⟨Value.isTable_merge ih.1 (isTable_nest hne),
        (tidy_nest (readValue_tidy _)).merge ih.2⟩

theorem layer_sectionTabled (henv : ∀ x ∈ env, keyPath? x.1 ≠ some [s]) :
    (layer env).SectionTabled s := by
  induction env using List.reverseRecOn with
  | nil => nofun
  | append_singleton env x ih =>
    rw [List.forall_mem_append, List.forall_mem_singleton] at henv
    rw [layer_concat]
    split
    · exact ih henv.1
    case h_2 path hpath =>
      have hne : path ≠ [] := fun hnil => keyPath?_ne_nil (hnil ▸ hpath)
      have hs : path ≠ [s] := fun hs => henv.2 (hs ▸ hpath)
      exact (ih henv.1).merge (layer_tabled env).1 (isTable_nest hne)
        (tidy_nest (readValue_tidy _)) (sectionTabled_nest hne hs)

/-- The layer holds what the last variable says about a key, or a table, which no setting is. -/
theorem leaf?_layer (henv : ∀ x ∈ env, keyPath? x.1 ≠ some [s]) :
    (∃ v, (layer env).leaf? s k = some v ∧ v.isTable = true) ∨
      (layer env).leaf? s k = setting? env s k := by
  induction env using List.reverseRecOn with
  | nil => exact .inr rfl
  | append_singleton env x ih =>
    rw [List.forall_mem_append, List.forall_mem_singleton] at henv
    have ih := ih henv.1
    rw [layer_concat, setting?_concat]
    cases hpath : keyPath? x.1 with
    | none => simpa using ih
    | some path =>
      have hne : path ≠ [] := fun hnil => keyPath?_ne_nil (hnil ▸ hpath)
      have hs : path ≠ [s] := fun hs => henv.2 (hs ▸ hpath)
      simp only [Option.some.injEq]
      rw [Value.leaf?_merge (layer_tabled env).1 (isTable_nest hne)
        (tidy_nest (readValue_tidy _)) (layer_sectionTabled henv.1) (sectionTabled_nest hne hs)]
      match path with
      | [first] =>
        rw [leaf?_nest_singleton fun hfirst => hs (by rw [hfirst]), if_neg (by simp)]
        exact ih
      | first :: second :: below =>
        rw [leaf?_nest]
        split
        case h_1 hnone =>
          rw [if_neg fun hpath => by cases hpath; simp at hnone]
          exact ih
        case h_2 w hw =>
          obtain ⟨⟨rfl, rfl⟩, rfl⟩ :
              (first = s ∧ second = k) ∧ .nest below (readValue x.2.toList) = w := by
            split at hw
            · exact ⟨‹_›, Option.some.inj hw⟩
            · cases hw
          cases below with
          | cons third below =>
            exact .inl ⟨_, rfl, Value.isTable_above (isTable_nest (List.cons_ne_nil _ _)) _⟩
          | nil =>
            rw [if_pos rfl, Value.nest]
            cases htable : (readValue x.2.toList).isTable with
            | true => exact .inl ⟨_, rfl, Value.isTable_above htable _⟩
            | false => exact .inr (by rw [Value.above_of_not_isTable htable])

end Environment

/-! ## Settings -/

/-- The seven settings. -/
inductive Setting where
  | extractedName
  | indentWidth
  | validateOutput
  | tsx
  | decorators
  | level
  | format
deriving DecidableEq, Repr

namespace Setting

/-- The section that a setting is in. -/
def sectionName : Setting → String
  | .extractedName | .indentWidth | .validateOutput => "refactoring"
  | .tsx | .decorators => "parser"
  | .level | .format => "logging"

/-- The key of a setting in its section. -/
def key : Setting → String
  | .extractedName => "extractedVariableName"
  | .indentWidth => "indentWidth"
  | .validateOutput => "validateOutput"
  | .tsx => "tsx"
  | .decorators => "decorators"
  | .level => "level"
  | .format => "format"

/-- A name in capitals, with underscores between its words. -/
def capitals (name : String) : Text :=
  name.toList.flatMap fun c => if c.isUpper then ['_', c] else [c.toUpper]

/-- The name of the variable that is meant for a setting. -/
def variableName (x : Setting) : String :=
  String.ofList ("MILL__".toList ++ capitals x.sectionName ++ "__".toList ++ capitals x.key)

/-- A value is what a configuration has for a setting. -/
def Holds (x : Setting) (c : Config) (v : Value) : Prop :=
  match x with
  | .extractedName => str? v = some c.extractedName
  | .indentWidth => nat? v = some c.indentWidth
  | .validateOutput => bool? v = some c.validateOutput
  | .tsx => bool? v = some c.tsx
  | .decorators => bool? v = some c.decorators
  | .level => str? v = some c.level
  | .format => format? v = some c.format

variable {x : Setting} {c : Config} {v : Value}

/-- No setting is a table; a table with a null in it could name a format. -/
theorem Holds.not_isTable (h : x.Holds c v) (htidy : v.Tidy) : v.isTable = false := by
  cases v with
  | table es =>
    cases x with
    | format =>
      change format? (.table es) = some c.format at h
      rw [format?.eq_def] at h
      split at h
      case h_2 name heq =>
        cases heq
        cases htidy.of_mem List.mem_cons_self with
        | leaf hnull _ => exact absurd rfl hnull
      all_goals contradiction
    | _ => cases h
  | _ => rfl

end Setting

/-! ## Reading a configuration -/

variable {c c' : Config} {v : Value}

/-- What the settings of a section are read from. The settings of other sections stay. -/
theorem withRefactoring_eq_some (h : withRefactoring c v = some c') :
    ∃ name width check,
      fields? ["extractedVariableName", "indentWidth", "validateOutput"] v
        = some [name, width, check] ∧
      str? name = some c'.extractedName ∧ nat? width = some c'.indentWidth ∧
      bool? check = some c'.validateOutput ∧
      c' = { c with
        extractedName := c'.extractedName, indentWidth := c'.indentWidth,
        validateOutput := c'.validateOutput } := by
  obtain ⟨values, hvalues, h⟩ := Option.bind_eq_some_iff.mp h
  split at h
  case h_1 name width check =>
    obtain ⟨n, hn, h⟩ := Option.bind_eq_some_iff.mp h
    obtain ⟨w, hw, h⟩ := Option.bind_eq_some_iff.mp h
    obtain ⟨b, hb, h⟩ := Option.bind_eq_some_iff.mp h
    cases h
    exact ⟨name, width, check, hvalues, hn, hw, hb, rfl⟩
  case h_2 => cases h

theorem withParser_eq_some (h : withParser c v = some c') :
    ∃ tsx decorators, fields? ["tsx", "decorators"] v = some [tsx, decorators] ∧
      bool? tsx = some c'.tsx ∧ bool? decorators = some c'.decorators ∧
      c' = { c with tsx := c'.tsx, decorators := c'.decorators } := by
  obtain ⟨values, hvalues, h⟩ := Option.bind_eq_some_iff.mp h
  split at h
  case h_1 tsx decorators =>
    obtain ⟨x, hx, h⟩ := Option.bind_eq_some_iff.mp h
    obtain ⟨y, hy, h⟩ := Option.bind_eq_some_iff.mp h
    cases h
    exact ⟨tsx, decorators, hvalues, hx, hy, rfl⟩
  case h_2 => cases h

theorem withLogging_eq_some (h : withLogging c v = some c') :
    ∃ level format, fields? ["level", "format"] v = some [level, format] ∧
      str? level = some c'.level ∧ format? format = some c'.format ∧
      c' = { c with level := c'.level, format := c'.format } := by
  obtain ⟨values, hvalues, h⟩ := Option.bind_eq_some_iff.mp h
  split at h
  case h_1 level format =>
    obtain ⟨x, hx, h⟩ := Option.bind_eq_some_iff.mp h
    obtain ⟨y, hy, h⟩ := Option.bind_eq_some_iff.mp h
    cases h
    exact ⟨level, format, hvalues, hx, hy, rfl⟩
  case h_2 => cases h

/-- What the sections of a table are read as. -/
theorem ofValue?_eq_some {es : List (String × Value)} (h : ofValue? (.table es) = some c) :
    (∀ y, Value.lookup "refactoring" es = some y → ∃ name width check,
      fields? ["extractedVariableName", "indentWidth", "validateOutput"] y
        = some [name, width, check] ∧
      str? name = some c.extractedName ∧ nat? width = some c.indentWidth ∧
      bool? check = some c.validateOutput) ∧
    (∀ y, Value.lookup "parser" es = some y → ∃ tsx decorators,
      fields? ["tsx", "decorators"] y = some [tsx, decorators] ∧
      bool? tsx = some c.tsx ∧ bool? decorators = some c.decorators) ∧
    ∀ y, Value.lookup "logging" es = some y → ∃ level format,
      fields? ["level", "format"] y = some [level, format] ∧
      str? level = some c.level ∧ format? format = some c.format := by
  simp only [ofValue?, Option.bind_eq_bind, Option.bind_some] at h
  obtain ⟨c₁, h₁, h⟩ := Option.bind_eq_some_iff.mp h
  obtain ⟨c₂, h₂, h₃⟩ := Option.bind_eq_some_iff.mp h
  -- the sections that are read later leave the settings of those before
  have hparser : c₂ = { c₁ with tsx := c₂.tsx, decorators := c₂.decorators } := by
    cases hfound : Value.lookup "parser" es with
    | none =>
      rw [hfound] at h₂
      cases h₂
      rfl
    | some z =>
      rw [hfound] at h₂
      obtain ⟨-, -, -, -, -, hframe⟩ := withParser_eq_some h₂
      exact hframe
  have hlogging : c = { c₂ with level := c.level, format := c.format } := by
    cases hfound : Value.lookup "logging" es with
    | none =>
      rw [hfound] at h₃
      cases h₃
      rfl
    | some z =>
      rw [hfound] at h₃
      obtain ⟨-, -, -, -, -, hframe⟩ := withLogging_eq_some h₃
      exact hframe
  refine ⟨fun y hy => ?_, fun y hy => ?_, fun y hy => ?_⟩
  · rw [hy] at h₁
    obtain ⟨name, width, check, hfields, hname, hwidth, hcheck, -⟩ := withRefactoring_eq_some h₁
    rw [hlogging, hparser]
    exact ⟨name, width, check, hfields, hname, hwidth, hcheck⟩
  · rw [hy] at h₂
    obtain ⟨tsx, decorators, hfields, htsx, hdecorators, -⟩ := withParser_eq_some h₂
    rw [hlogging]
    exact ⟨tsx, decorators, hfields, htsx, hdecorators⟩
  · rw [hy] at h₃
    obtain ⟨level, format, hfields, hlevel, hformat, -⟩ := withLogging_eq_some h₃
    exact ⟨level, format, hfields, hlevel, hformat⟩

/-- The fields of a section that is a table stand under their keys. -/
theorem field?_of_fields? {keys : List String} {values : List Value} (hv : v.isTable = true)
    (h : fields? keys v = some values) : keys.map v.field? = values.map some := by
  obtain ⟨es, rfl⟩ := Value.exists_of_isTable hv
  induction keys generalizing values with
  | nil =>
    cases h
    rfl
  | cons k keys ih =>
    simp only [fields?, List.mapM_cons, Option.bind_eq_bind, Option.bind_eq_some_iff] at h
    obtain ⟨w, hw, rest, hrest, heq⟩ := h
    cases heq
    rw [List.map_cons, List.map_cons, ih hrest]
    exact congrArg (· :: _) hw

/-- A section that is there and a table gives its settings the values under their keys. -/
theorem ofValue?_holds (hv : v.isTable = true) (h : ofValue? v = some c) {x : Setting}
    {y : Value} (hy : v.field? x.sectionName = some y) (hytable : y.isTable = true) :
    ∃ w, v.leaf? x.sectionName x.key = some w ∧ x.Holds c w := by
  obtain ⟨es, rfl⟩ := Value.exists_of_isTable hv
  obtain ⟨hrefactoring, hparser, hlogging⟩ := ofValue?_eq_some h
  rw [Value.leaf?, hy, Option.bind_some]
  cases x with
  | extractedName =>
    obtain ⟨name, width, check, hfields, hname, -, -⟩ := hrefactoring y hy
    have hfound := List.cons.inj (field?_of_fields? hytable hfields)
    exact ⟨name, hfound.1, hname⟩
  | indentWidth =>
    obtain ⟨name, width, check, hfields, -, hwidth, -⟩ := hrefactoring y hy
    have hfound := List.cons.inj (List.cons.inj (field?_of_fields? hytable hfields)).2
    exact ⟨width, hfound.1, hwidth⟩
  | validateOutput =>
    obtain ⟨name, width, check, hfields, -, -, hcheck⟩ := hrefactoring y hy
    have hfound := List.cons.inj (List.cons.inj (field?_of_fields? hytable hfields)).2
    exact ⟨check, (List.cons.inj hfound.2).1, hcheck⟩
  | tsx =>
    obtain ⟨tsx, decorators, hfields, htsx, -⟩ := hparser y hy
    have hfound := List.cons.inj (field?_of_fields? hytable hfields)
    exact ⟨tsx, hfound.1, htsx⟩
  | decorators =>
    obtain ⟨tsx, decorators, hfields, -, hdecorators⟩ := hparser y hy
    have hfound := List.cons.inj (List.cons.inj (field?_of_fields? hytable hfields)).2
    exact ⟨decorators, hfound.1, hdecorators⟩
  | level =>
    obtain ⟨level, format, hfields, hlevel, -⟩ := hlogging y hy
    have hfound := List.cons.inj (field?_of_fields? hytable hfields)
    exact ⟨level, hfound.1, hlevel⟩
  | format =>
    obtain ⟨level, format, hfields, -, hformat⟩ := hlogging y hy
    have hfound := List.cons.inj (List.cons.inj (field?_of_fields? hytable hfields)).2
    exact ⟨format, hfound.1, hformat⟩

/-! ## Layers of a run -/

/-- The values of what stands at a path. What is no file there holds no values. -/
def valuesOf? : Access → Option Value
  | .text content => Toml.read? content
  | .unreadable => none
  | .directory | .missing | .blocked => some (.table [])

/-- The values of the file that counts: `mill.toml` if it is there, and the other one if not. -/
def fileValues? (access : Text → Access) : Option Value :=
  if (access "mill.toml".toList).isThere then valuesOf? (access "mill.toml".toList)
  else valuesOf? (access ".mill/config.toml".toList)

/-- The default values. -/
def defaults : Value := ({} : Config).toValue

variable {env : List (String × String)} {access : Text → Access}

theorem ofValue?_of_load {base : Value}
    (h : (match ofValue? (base.merge (Environment.layer env)) with
      | none => throw loadFault
      | some c => do
        c.validate
        return c : Except Fault Config) = .ok c) :
    ofValue? (base.merge (Environment.layer env)) = some c := by
  split at h
  · cases h
  case h_2 found hfound =>
    cases hvalid : found.validate with
    | error fault =>
      rw [hvalid] at h
      cases h
    | ok u =>
      rw [hvalid] at h
      cases h
      exact hfound

theorem ofValue?_of_load_none (h : load none env = .ok c) :
    ofValue? ((defaults.merge (.table [])).merge (Environment.layer env)) = some c :=
  ofValue?_of_load h

theorem exists_of_load_some {text : Text} (h : load (some text) env = .ok c) :
    ∃ file, Toml.read? text = some file ∧
      ofValue? ((defaults.merge file).merge (Environment.layer env)) = some c := by
  cases hread : Toml.read? text with
  | none =>
    simp only [load, hread] at h
    cases h
  | some file =>
    simp only [load, hread] at h
    exact ⟨file, rfl, ofValue?_of_load h⟩

theorem exists_of_loadAt {path : Text} (h : loadAt path env access = .ok c) :
    ∃ file, valuesOf? (access path) = some file ∧
      ofValue? ((defaults.merge file).merge (Environment.layer env)) = some c := by
  cases hpath : access path with
  | text content =>
    rw [loadAt, hpath] at h
    exact exists_of_load_some h
  | unreadable =>
    rw [loadAt, hpath] at h
    cases h
  | directory | missing | blocked =>
    rw [loadAt, hpath] at h
    exact ⟨_, rfl, ofValue?_of_load_none h⟩

/-- The three layers of a run. -/
theorem exists_of_find (h : find none env access = .ok c) :
    ∃ file, fileValues? access = some file ∧
      ofValue? ((defaults.merge file).merge (Environment.layer env)) = some c := by
  rw [fileValues?]
  simp only [find, searchPaths, List.find?_cons] at h
  cases hfirst : (access "mill.toml".toList).isThere with
  | true =>
    rw [hfirst] at h
    exact exists_of_loadAt h
  | false =>
    rw [hfirst] at h
    rw [if_neg (by decide)]
    cases hsecond : (access ".mill/config.toml".toList).isThere with
    | true =>
      rw [hsecond] at h
      exact exists_of_loadAt h
    | false =>
      rw [hsecond] at h
      refine ⟨.table [], ?_, ofValue?_of_load_none h⟩
      cases hplace : access ".mill/config.toml".toList with
      | missing | blocked => rfl
      | text _ | directory | unreadable =>
        rw [hplace] at hsecond
        cases hsecond

theorem defaults_tidy : defaults.Tidy := by
  have hplain {v : Value} (hnull : v ≠ .null) (htable : ∀ es, v ≠ .table es) : v.Tidy :=
    .leaf hnull htable
  refine .node (by decide) ?_
  simp only [List.forall_mem_cons, List.not_mem_nil, false_implies, implies_true, and_true]
  refine ⟨.node (by decide) ?_, .node (by decide) ?_, .node (by decide) ?_⟩
  all_goals
    simp only [List.forall_mem_cons, List.not_mem_nil, false_implies, implies_true, and_true]
  · exact ⟨hplain nofun nofun, hplain nofun nofun, hplain nofun nofun⟩
  · exact ⟨hplain nofun nofun, hplain nofun nofun⟩
  · exact ⟨hplain nofun nofun, hplain nofun nofun⟩

theorem defaults_sectionTabled (s : String) : defaults.SectionTabled s := by
  intro y hy
  have hmem := Value.mem_of_lookup hy
  simp only [List.mem_cons, Prod.mk.injEq, List.not_mem_nil, or_false] at hmem
  rcases hmem with ⟨-, rfl⟩ | ⟨-, rfl⟩ | ⟨-, rfl⟩ <;> rfl

/-- Names of variables are lowered, so a key with a capital letter is out of their reach. -/
theorem Environment.setting?_eq_none {s k : String} (hk : k.toList.any Char.isUpper = true) :
    setting? env s k = none := by
  rw [setting?, Option.map_eq_none_iff, List.find?_eq_none]
  intro entry _ hentry
  have hlow := not_isUpper_of_keyPath? (eq_of_beq hentry) (List.mem_cons_of_mem s (List.mem_singleton_self k))
  rw [hk] at hlow
  cases hlow

/-- The variable that is meant for a setting spells its key. -/
theorem Setting.spelled?_variableName (x : Setting) :
    Environment.spelled? x.variableName = some [x.sectionName.toList, x.key.toList] := by
  cases x <;> decide +kernel

/-- If the key has no capital letter, the variable also sets it. -/
theorem Setting.keyPath?_variableName {x : Setting} (hx : x.key.toList.any Char.isUpper = false) :
    Environment.keyPath? x.variableName = some [x.sectionName, x.key] := by
  rw [Environment.keyPath?, x.spelled?_variableName]
  cases x with
  | extractedName | indentWidth | validateOutput => exact absurd hx (by decide)
  | tsx | decorators | level | format => decide

theorem defaults_field? (x : Setting) : (defaults.field? x.sectionName).isSome = true := by
  cases x <;> rfl

theorem fileValues?_tidy {file : Value} (h : fileValues? access = some file) :
    file.isTable = true ∧ file.Tidy := by
  have hvalues {a : Access} (ha : valuesOf? a = some file) : file.isTable = true ∧ file.Tidy := by
    cases a with
    | text content => exact Toml.read?_tidy ha
    | unreadable => cases ha
    | directory | missing | blocked =>
      cases ha
      exact ⟨rfl, Value.tidy_empty⟩
  rw [fileValues?] at h
  split at h <;> exact hvalues h

/-- **Which source of a setting counts.** Let a configuration be found. Where the section of a
setting is a table in the file, if it is there at all, and no variable sets the section as a whole,
the setting is what the last variable that sets its key says; else what the file says, which is
`mill.toml` if that is there and the other file if not; else the default. The variable that is meant
for a setting spells its key, capital letters included, and sets it if the key has none. A key with a
capital letter is set by no variable at all. -/
theorem find_precedence (h : find none env access = .ok c) :
    ∃ file, fileValues? access = some file ∧
      ∀ x : Setting, file.SectionTabled x.sectionName →
        (∀ entry ∈ env, Environment.keyPath? entry.1 ≠ some [x.sectionName]) →
        (∃ v, ((Environment.setting? env x.sectionName x.key).or
            (file.leaf? x.sectionName x.key)).or
              (defaults.leaf? x.sectionName x.key) = some v ∧ x.Holds c v) ∧
        Environment.spelled? x.variableName = some [x.sectionName.toList, x.key.toList] ∧
        (x.key.toList.any Char.isUpper = false →
          Environment.keyPath? x.variableName = some [x.sectionName, x.key]) ∧
        (x.key.toList.any Char.isUpper = true →
          Environment.setting? env x.sectionName x.key = none) := by
  obtain ⟨file, hfile, hvalue⟩ := exists_of_find h
  refine ⟨file, hfile, fun x hsection henv =>
    ⟨?_, x.spelled?_variableName, Setting.keyPath?_variableName, Environment.setting?_eq_none⟩⟩
  obtain ⟨hfiletable, hfiletidy⟩ := fileValues?_tidy hfile
  obtain ⟨hlayertable, hlayertidy⟩ := Environment.layer_tabled env
  have hlayersection := Environment.layer_sectionTabled henv
  have hbothtable : (defaults.merge file).isTable = true := Value.isTable_merge rfl hfiletable
  have hbothsection :=
    (defaults_sectionTabled x.sectionName).merge rfl hfiletable hfiletidy hsection
  -- the section is there, since the defaults have it
  obtain ⟨y, hy⟩ := Option.isSome_iff_exists.mp
    (Value.isSome_field?_merge hbothtable hlayertable hlayertidy
      (Value.isSome_field?_merge rfl hfiletable hfiletidy (defaults_field? x)))
  obtain ⟨v, hv, hholds⟩ := ofValue?_holds (Value.isTable_merge hbothtable hlayertable) hvalue hy
    (hbothsection.merge hbothtable hlayertable hlayertidy hlayersection y hy)
  have hplain := hholds.not_isTable
    ((hlayertidy.merge (hfiletidy.merge defaults_tidy)).leaf? hv)
  have hlayers := Value.leaf?_merge_merge rfl hfiletable hlayertable hfiletidy hlayertidy
    (defaults_sectionTabled _) hsection hlayersection hv hplain
  refine ⟨v, ?_, hholds⟩
  rcases Environment.leaf?_layer (k := x.key) henv with ⟨w, hw, htable⟩ | heq
  · rw [hw] at hlayers
    cases hlayers
    rw [htable] at hplain
    cases hplain
  · rwa [heq] at hlayers

theorem find_eq_ok (h : (find none env access).toOption = some c) :
    find none env access = .ok c := by
  cases hfind : find none env access with
  | error fault =>
    rw [hfind] at h
    cases h
  | ok found =>
    rw [hfind] at h
    exact congrArg Except.ok (Option.some.inj h)

/-- Three layers: the level comes from the environment, the width from the file, although a variable
is meant for it, and markup from the defaults, since the other file does not count. -/
theorem find_precedence_layers :
    ∃ env files c file,
      env = [("MILL__REFACTORING__INDENT_WIDTH", "8"), ("MILL__LOGGING__LEVEL", "debug")] ∧
      files = Workspace.mk [(".mill/config.toml".toList, "[parser]\ntsx = true\n".toList),
        ("mill.toml".toList,
          "[logging]\nlevel = \"info\"\n[refactoring]\nindentWidth = 4\n".toList)] ∧
      find none env files.access = .ok c ∧ fileValues? files.access = some file ∧
      c = { level := "debug", indentWidth := 4 } ∧
      ∀ x : Setting, (∃ v, ((Environment.setting? env x.sectionName x.key).or
          (file.leaf? x.sectionName x.key)).or
            (defaults.leaf? x.sectionName x.key) = some v ∧ x.Holds c v) ∧
        Environment.spelled? x.variableName = some [x.sectionName.toList, x.key.toList] ∧
        (x.key.toList.any Char.isUpper = false →
          Environment.keyPath? x.variableName = some [x.sectionName, x.key]) ∧
        (x.key.toList.any Char.isUpper = true →
          Environment.setting? env x.sectionName x.key = none) := by
  have hfind : find none
      [("MILL__REFACTORING__INDENT_WIDTH", "8"), ("MILL__LOGGING__LEVEL", "debug")]
      (Workspace.mk [(".mill/config.toml".toList, "[parser]\ntsx = true\n".toList),
        ("mill.toml".toList,
          "[logging]\nlevel = \"info\"\n[refactoring]\nindentWidth = 4\n".toList)]).access
        = .ok { level := "debug", indentWidth := 4 } :=
    find_eq_ok (by decide +kernel)
  obtain ⟨file, hfile, hlayers⟩ := find_precedence hfind
  refine ⟨_, _, _, file, rfl, rfl, hfind, hfile, rfl, fun x => hlayers x ?_ ?_⟩
  · have htabled : ∀ name ∈ ["refactoring", "parser", "logging"],
        ∀ file ∈ fileValues? (Workspace.mk
          [(".mill/config.toml".toList, "[parser]\ntsx = true\n".toList), ("mill.toml".toList,
            "[logging]\nlevel = \"info\"\n[refactoring]\nindentWidth = 4\n".toList)]).access,
          file.SectionTabled name := by
      decide +kernel
    exact htabled _ (by cases x <;> decide) file hfile
  · cases x <;> decide +kernel

/-- The variable that is meant for the width, set to four, leaves the default. -/
theorem find_ignores_width :
    Setting.indentWidth.variableName = "MILL__REFACTORING__INDENT_WIDTH" ∧
      find none [("MILL__REFACTORING__INDENT_WIDTH", "4")] (Workspace.access ⟨[]⟩) = .ok {} ∧
      ¬ Setting.indentWidth.Holds {} (Environment.readValue "4".toList) := by
  refine ⟨by decide +kernel, find_eq_ok (by decide +kernel), fun hholds => ?_⟩
  change nat? (Environment.readValue "4".toList) = some 2 at hholds
  exact absurd hholds (by decide +kernel)

end Retouch.Config

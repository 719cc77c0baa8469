import Mathlib.Data.Bool.Basic
import Mathlib.Data.List.Basic
import Retouch.Cli.Run

/-!
# What a run of the command line does to files

- `Workspace.disk`: a workspace is a disk, and a run does the same to both (`Cli.run_disk`).
- `Args.read_withoutWrite`: the same command without `--write`.
- `Cli.run_keeps_files`: files change only where a refactoring that was told to write succeeds, and
  then the named file holds the text that the same command prints when it is not told to.
-/

namespace Retouch

/-! ## Files -/

@[simp] theorem Access.ofBytes_bytes (text : Text) : ofBytes (Text.bytes text) = .text text := by
  have hvalid : (Text.bytes text).IsValidUTF8 := (String.ofList text).isValidUTF8
  rw [ofBytes, String.fromUTF8?, dif_pos hvalid]
  exact congrArg Access.text String.toList_ofList

namespace Disk

variable {Place : Type} {disk : Disk Place} {path text : Text} {place : Place}

theorem write_of_locate [DecidableEq Place] (h : disk.locate path = .ok place) :
    disk.write path text = disk.put place (Text.bytes text) := by
  rw [write, h]

/-- What can be read is a file. -/
theorem exists_of_access (h : disk.access path = .text text) :
    ∃ place, disk.locate path = .ok place := by
  cases hplace : disk.locate path with
  | error a =>
    rw [access, hplace] at h
    exact absurd h (disk.ne_text hplace text)
  | ok place => exact ⟨place, rfl⟩

end Disk

namespace Workspace

variable {w : Workspace} {path content text : Text} {place other : List Text}

/-- Put a new text into the file at a place. -/
def replace (w : Workspace) (place : List Text) (content : Text) : Workspace :=
  ⟨w.files.map fun file => if names file.1 == place then (file.1, content) else file⟩

theorem content?_replace :
    (w.replace place content).content? other =
      if other = place then (w.content? other).map fun _ => content else w.content? other := by
  obtain ⟨files⟩ := w
  simp only [content?, replace]
  induction files with
  | nil => simp
  | cons file files ih =>
    rw [List.map_cons]
    by_cases hfile : names file.1 = place <;> by_cases hother : other = place <;>
      grind

theorem isSome_content?_replace :
    ((w.replace place content).content? other).isSome = (w.content? other).isSome := by
  rw [content?_replace]
  split <;> simp

theorem hasDirectory_replace :
    (w.replace place content).hasDirectory other = w.hasDirectory other := by
  simp only [hasDirectory, replace, List.any_map]
  congr 2
  funext file
  simp only [Function.comp_apply]
  split <;> rfl

/-- A new text leaves the paths as they are. -/
theorem locate_replace : (w.replace place content).locate path = w.locate path := by
  have hfollow (steps start : List Text) :
      (w.replace place content).follow steps start = w.follow steps start := by
    induction steps generalizing start with
    | nil => rfl
    | cons name rest ih => simp only [follow, isSome_content?_replace, hasDirectory_replace, ih]
  simp only [locate, hfollow]

theorem ne_text_of_follow {a : Access} {steps start : List Text}
    (h : w.follow steps start = .error a) : a ≠ .text text := by
  rintro rfl
  induction steps generalizing start with
  | nil => cases h
  | cons name rest ih =>
    rw [follow.eq_def] at h
    grind

theorem ne_text_of_locate {a : Access} (h : w.locate path = .error a) : a ≠ .text text := by
  rw [locate.eq_def] at h
  split at h
  · cases h
    exact nofun
  · split at h
    all_goals
      cases h
      exact nofun
  · exact ne_text_of_follow h

/-- The file that a path leads to, or why there is none. -/
def fileAt (w : Workspace) (path : Text) : Except Access (List Text) :=
  match w.locate path with
  | .error a => .error a
  | .ok place => if (w.content? place).isSome then .ok place else .error .directory

/-- The files of a workspace on a disk. -/
def disk (w : Workspace) : Disk (List Text) where
  locate := w.fileAt
  content place := Text.bytes ((w.content? place).getD [])
  ne_text := by
    intro path a h text
    rw [fileAt] at h
    split at h
    case h_1 hplace =>
      cases h
      exact ne_text_of_locate hplace
    case h_2 =>
      split at h
      · cases h
      · cases h
        exact nofun

theorem access_disk : w.disk.access path = w.access path := by
  simp only [Disk.access, access, disk, fileAt]
  cases w.locate path with
  | error a => rfl
  | ok place => cases h : w.content? place <;> simp [h]

/-- Writing to a workspace is writing to its disk. -/
theorem disk_write : (w.write path text).disk = w.disk.write path text := by
  cases hplace : w.locate path with
  | error a => simp only [write, Disk.write, disk, fileAt, hplace]
  | ok place =>
    have hwrite : w.write path text = w.replace place text := by
      rw [write, hplace]
      rfl
    have hfiles : (w.replace place text).fileAt = w.fileAt := by
      funext other
      simp only [fileAt, locate_replace, isSome_content?_replace]
    rw [hwrite]
    simp only [Disk.write, disk, Disk.put, hfiles]
    cases hcontent : w.content? place <;>
      simp only [fileAt, hplace, hcontent, Option.isSome_some, Option.isSome_none, if_true,
        Bool.false_eq_true, if_false, Disk.mk.injEq, true_and]
    all_goals
      funext other
      rw [content?_replace]
      by_cases hother : other = place
      · simp [hother, hcontent]
      · simp [hother]

end Workspace

/-! ## Arguments -/

theorem exists_of_bind_eq_ok {ε α β : Type} {e : Except ε α} {f : α → Except ε β} {b : β}
    (h : e >>= f = .ok b) : ∃ a, e = .ok a ∧ f a = .ok b := by
  cases e with
  | error x => cases h
  | ok a => exact ⟨a, rfl, h⟩

namespace Args

/-- Arguments without `--write`. What follows `--` is no option. -/
def withoutWrite : List Text → List Text
  | [] => []
  | arg :: rest =>
    if arg = "--".toList then arg :: rest
    else if arg = "--write".toList then withoutWrite rest
    else arg :: withoutWrite rest

/-- What was given, but for `--write`. -/
def Given.unwritten (g : Given) : Given :=
  { g with options := g.options.filter fun o => o.1 != "write" }

variable {g g' : Given} {name : String} {value : Text} {args : List Text}

theorem Given.option?_unwritten (h : name ≠ "write") :
    g.unwritten.option? name = g.option? name := by
  obtain ⟨options, places⟩ := g
  simp only [Given.option?, Given.unwritten]
  induction options with
  | nil => rfl
  | cons o options ih => grind

theorem Given.add_unwritten (hname : name ≠ "write") (h : g.add name value = .ok g') :
    g.unwritten.add name value = .ok g'.unwritten := by
  rw [add] at h ⊢
  rw [option?_unwritten hname]
  split at h
  · cases h
  case isFalse hnone =>
    cases h
    simp [hnone, unwritten, hname]

theorem Given.add_write (h : g.add "write" value = .ok g') : g'.unwritten = g.unwritten := by
  rw [add] at h
  split at h
  · cases h
  · cases h
    simp [unwritten]

theorem Given.addPlace_unwritten {places : List Shape} (h : g.addPlace places value = .ok g') :
    g.unwritten.addPlace places value = .ok g'.unwritten := by
  rw [addPlace] at h ⊢
  rw [show g.unwritten.places = g.places from rfl]
  split at h
  · cases h
  · split at h
    case isTrue hfits =>
      cases h
      rw [if_pos hfits]
      rfl
    · cases h

theorem foldlM_addPlace_unwritten {places : List Shape}
    (h : args.foldlM (fun g value => g.addPlace places value) g = .ok g') :
    args.foldlM (fun g value => Given.addPlace g places value) g.unwritten = .ok g'.unwritten := by
  induction args generalizing g with
  | nil =>
    cases h
    rfl
  | cons value args ih =>
    rw [List.foldlM_cons] at h ⊢
    cases hadd : g.addPlace places value with
    | error halt =>
      rw [hadd] at h
      cases h
    | ok next =>
      rw [hadd] at h
      rw [Given.addPlace_unwritten hadd]
      exact ih h

theorem withoutWrite_cons_of_not_isOption (h : isOption value = false) :
    withoutWrite (value :: args) = value :: withoutWrite args := by
  have hend : value ≠ "--".toList := by rintro rfl; cases h
  have hwrite : value ≠ "--write".toList := by rintro rfl; cases h
  rw [withoutWrite, if_neg hend, if_neg hwrite]

theorem withoutWrite_cons_long {body : Text} (hend : body ≠ []) (hwrite : body ≠ "write".toList) :
    withoutWrite (('-' :: '-' :: body) :: args) = ('-' :: '-' :: body) :: withoutWrite args := by
  have hend' : '-' :: '-' :: body ≠ "--".toList := fun heq => hend (by simpa using heq)
  have hwrite' : '-' :: '-' :: body ≠ "--write".toList := fun heq => hwrite (by simpa using heq)
  rw [withoutWrite, if_neg hend', if_neg hwrite']

theorem splitLong_write : splitLong "write".toList = ("write", none) := by decide

theorem eq_of_splitLong_none {body : Text} (h : splitLong body = (name, none)) :
    body = name.toList := by
  rw [splitLong] at h
  split at h
  case h_1 hdrop =>
    cases h
    rw [String.toList_ofList]
    exact ((List.takeWhile_prefix _).eq_of_length_le (List.drop_eq_nil_iff.mp hdrop)).symm
  · cases h

section Reading

variable {topic : Topic} {options : Options} {places : List Shape} {shape : Shape} {body : Text}
  {rest : List Text}

/-! The three ways to give an option: alone, with its value, and with the value as the next
argument. -/

theorem readOptions_flag (hbody : body ≠ []) (hsplit : splitLong body = (name, none))
    (hhelp : name ≠ "help") (hshape : shape? options name = some .flag) :
    readOptions topic options places (('-' :: '-' :: body) :: rest) g =
      g.add name [] >>= readOptions topic options places rest := by
  rw [readOptions.eq_3 _ _ _ _ _ _ hbody, hsplit]
  split
  case h_1 heq =>
    cases heq
    exact absurd rfl hhelp
  case h_2 heq =>
    cases heq
    rw [hshape]

theorem readOptions_given (hbody : body ≠ []) (hsplit : splitLong body = (name, some value))
    (hshape : shape? options name = some shape) (hfits : fits shape value = true) :
    readOptions topic options places (('-' :: '-' :: body) :: rest) g =
      g.add name value >>= readOptions topic options places rest := by
  rw [readOptions.eq_3 _ _ _ _ _ _ hbody, hsplit]
  split
  case h_1 heq => cases heq
  case h_2 heq =>
    cases heq
    rw [hshape]
    cases shape <;> simp only [hfits, if_true]

theorem readOptions_next (hbody : body ≠ []) (hsplit : splitLong body = (name, none))
    (hhelp : name ≠ "help") (hshape : shape? options name = some shape) (hflag : shape ≠ .flag)
    (hfits : (!isOption value && fits shape value) = true) :
    readOptions topic options places (('-' :: '-' :: body) :: value :: rest) g =
      g.add name value >>= readOptions topic options places rest := by
  rw [readOptions.eq_3 _ _ _ _ _ _ hbody, hsplit]
  split
  case h_1 heq =>
    cases heq
    exact absurd rfl hhelp
  case h_2 heq =>
    cases heq
    rw [hshape]
    cases shape with
    | flag => exact absurd rfl hflag
    | word | path | count | format => simp only [hfits, if_true]

theorem readOptions_place (hvalue : isOption value = false) :
    readOptions topic options places (value :: rest) g =
      g.addPlace places value >>= readOptions topic options places rest := by
  rw [readOptions.eq_def]
  split <;> simp_all [isOption]

/-- Reading the options without `--write` gives the same but for it. -/
theorem readOptions_withoutWrite (hflag : shape? options "write" = some .flag)
    (h : readOptions topic options places args g = .ok g') :
    readOptions topic options places (withoutWrite args) g.unwritten = .ok g'.unwritten := by
  fun_induction readOptions topic options places args g generalizing g' with
  | case1 g =>
    cases h
    rfl
  | case2 rest g => exact foldlM_addPlace_unwritten h
  | case3 | case4 | case7 | case8 | case10 | case11 => cases h
  | case5 body rest g hbody name hshape hhelp hsplit ih =>
    obtain ⟨next, hnext, hread⟩ := exists_of_bind_eq_ok h
    by_cases hname : name = "write"
    · subst hname
      obtain rfl := eq_of_splitLong_none hsplit
      rw [← Given.add_write hnext]
      exact ih next hread
    · have hwrite : body ≠ "write".toList := by
        rintro rfl
        exact hname (congrArg Prod.fst (splitLong_write.symm.trans hsplit)).symm
      rw [withoutWrite_cons_long hbody hwrite,
        readOptions_flag hbody hsplit (fun hname => hhelp hname rfl) hshape,
        Given.add_unwritten hname hnext]
      exact ih next hread
  | case6 body rest g hbody name shape v hshape hfits hhelp hsplit ih =>
    obtain ⟨next, hnext, hread⟩ := exists_of_bind_eq_ok h
    have hname : name ≠ "write" := by
      rintro rfl
      cases hflag.symm.trans hshape
      cases hfits
    have hwrite : body ≠ "write".toList := by
      rintro rfl
      cases splitLong_write.symm.trans hsplit
    rw [withoutWrite_cons_long hbody hwrite, readOptions_given hbody hsplit hshape hfits,
      Given.add_unwritten hname hnext]
    exact ih next hread
  | case9 body g hbody name shape hnot hshape v rest hfits hhelp hsplit ih =>
    obtain ⟨next, hnext, hread⟩ := exists_of_bind_eq_ok h
    have hname : name ≠ "write" := by
      rintro rfl
      exact hnot (Option.some.inj (hshape.symm.trans hflag))
    have hwrite : body ≠ "write".toList := by
      rintro rfl
      exact hname (congrArg Prod.fst (splitLong_write.symm.trans hsplit)).symm
    have hvalue : isOption v = false := by
      rw [Bool.and_eq_true, Bool.not_eq_true'] at hfits
      exact hfits.1
    rw [withoutWrite_cons_long hbody hwrite, withoutWrite_cons_of_not_isOption hvalue,
      readOptions_next hbody hsplit (fun hname => hhelp hname rfl) hshape hnot hfits,
      Given.add_unwritten hname hnext]
    exact ih next hread
  | case12 value rest g hend hlong hshort ih =>
    obtain ⟨next, hnext, hread⟩ := exists_of_bind_eq_ok h
    have hvalue : isOption value = false := by
      rw [isOption.eq_def]
      split
      · exact absurd rfl (hshort _ _)
      · rfl
    rw [withoutWrite_cons_of_not_isOption hvalue, readOptions_place hvalue,
      Given.addPlace_unwritten hnext]
    exact ih next hread

end Reading

variable {key : String} {file : Text} {s : Selection} {write : Bool} {format : OutputFormat}
  {config chosen : Option Text}

theorem Given.places_unwritten : g.unwritten.places = g.places := rfl

theorem Given.selection?_unwritten : g.unwritten.selection? = g.selection? := by
  simp only [selection?, option?_unwritten (show "line" ≠ "write" by decide),
    option?_unwritten (show "column" ≠ "write" by decide),
    option?_unwritten (show "end-line" ≠ "write" by decide),
    option?_unwritten (show "end-column" ≠ "write" by decide)]

theorem Given.option?_write_unwritten : g.unwritten.option? "write" = none := by
  simp [option?, unwritten]

theorem Given.format_unwritten : g.unwritten.format = g.format := by
  rw [Given.format, Given.format, option?_unwritten (by decide)]

theorem readRefactor_withoutWrite
    (h : readRefactor args = .ok (g, .refactor key file s write format)) :
    readRefactor (withoutWrite args) = .ok (g.unwritten, .refactor key file s false format) := by
  obtain ⟨given, hgiven, h⟩ := exists_of_bind_eq_ok h
  obtain ⟨selection, hselection, h⟩ := exists_of_bind_eq_ok h
  have hrest := readOptions_withoutWrite (by decide) hgiven
  rw [show ({} : Given).unwritten = {} from rfl] at hrest
  split at h
  case h_1 hplaces =>
    cases h
    simp only [readRefactor, hrest, Given.selection?_unwritten, bind, Except.bind, hselection,
      Given.places_unwritten, hplaces, Given.option?_write_unwritten, Given.format_unwritten]
    rfl
  · cases h

theorem readTask_withoutWrite
    (h : readTask name args = .ok (g, .refactor key file s write format)) :
    readTask name (withoutWrite args) = .ok (g.unwritten, .refactor key file s false format) := by
  rw [readTask.eq_def] at h ⊢
  split at h
  · exact readRefactor_withoutWrite h
  · obtain ⟨given, -, h⟩ := exists_of_bind_eq_ok h
    cases h
  · obtain ⟨given, -, h⟩ := exists_of_bind_eq_ok h
    obtain ⟨selection, -, h⟩ := exists_of_bind_eq_ok h
    split at h <;> cases h
  · cases h
  · cases h

theorem long_of_splitLong {body : Text} {given : Option Text}
    (h : splitLong body = ("config", given)) : body ≠ [] ∧ body ≠ "write".toList := by
  have hname := congrArg Prod.fst h
  constructor
  all_goals
    rintro rfl
    change _ = "config" at hname
    exact absurd hname (by decide)

theorem readFrom_withoutWrite
    (h : readFrom config args = .ok ⟨chosen, .refactor key file s write format⟩) :
    readFrom config (withoutWrite args) = .ok ⟨chosen, .refactor key file s false format⟩ := by
  fun_induction readFrom config args with
  | case1 | case2 | case3 | case5 | case6 | case8 | case9 | case10 | case11 => cases h
  | case4 config body rest path hsplit hpath ih =>
    obtain ⟨hbody, hwrite⟩ := long_of_splitLong hsplit
    rw [withoutWrite_cons_long hbody hwrite, readFrom.eq_def]
    simp only [hsplit, hpath, if_true]
    exact ih h
  | case7 config body hsplit path rest hpath ih =>
    obtain ⟨hbody, hwrite⟩ := long_of_splitLong hsplit
    have hvalue : isOption path = false := by
      cases hoption : isOption path with
      | false => rfl
      | true => simp [hoption] at hpath
    rw [withoutWrite_cons_long hbody hwrite, withoutWrite_cons_of_not_isOption hvalue,
      readFrom.eq_def]
    simp only [hsplit, hpath, if_true]
    exact ih h
  | case12 config name rest hlong hshort given task htask =>
    cases h
    have hvalue : isOption name = false := by
      rw [isOption.eq_def]
      split
      · exact absurd rfl (hshort _ _)
      · rfl
    rw [withoutWrite_cons_of_not_isOption hvalue, readFrom.eq_5 _ _ _ hlong hshort,
      readTask_withoutWrite htask]
    simp only [Given.option?_unwritten (show "config" ≠ "write" by decide)]

/-- The same command without `--write`. -/
theorem read_withoutWrite (h : read args = .ok ⟨config, .refactor key file s write format⟩) :
    read (withoutWrite args) = .ok ⟨config, .refactor key file s false format⟩ :=
  readFrom_withoutWrite h

end Args

/-! ## Texts in the output -/

namespace Json

/-- Characters that are written as a backslash and a letter, by their letters. -/
def named : List (Char × Char) :=
  [('"', '"'), ('\\', '\\'), ('b', '\x08'), ('f', '\x0c'), ('n', '\n'), ('r', '\r'), ('t', '\t')]

/-- The three ways to write a character. -/
theorem escape_cases (c : Char) :
    (escape c = [c] ∧ c ≠ '"' ∧ c ≠ '\\') ∨ (∃ e, escape c = ['\\', e] ∧ (e, c) ∈ named) ∨
      c.toNat < 0x20 ∧
        escape c = ['\\', 'u', '0', '0', hexDigit (c.toNat / 16), hexDigit (c.toNat % 16)] := by
  rw [escape]
  split_ifs
  all_goals simp_all [named]

theorem named_inj {e : Char} {c d : Char} (hc : (e, c) ∈ named) (hd : (e, d) ∈ named) : c = d := by
  have hall : ∀ p ∈ named, ∀ q ∈ named, p.1 = q.1 → p.2 = q.2 := by decide
  exact hall _ hc _ hd rfl

theorem hexDigit_inj : ∀ m < 16, ∀ n < 16, hexDigit m = hexDigit n → m = n := by decide

/-- No text is written in two ways, and none is the beginning of another. -/
theorem escape_append_inj {c d : Char} {x y : Text} (h : escape c ++ x = escape d ++ y) :
    c = d ∧ x = y := by
  have hnamed : ∀ c, ('u', c) ∉ named := by simp [named]
  rcases escape_cases c with ⟨hc, -, hslash⟩ | ⟨e, hc, he⟩ | ⟨hlow, hc⟩ <;>
    rcases escape_cases d with ⟨hd, -, hslash'⟩ | ⟨e', hd, he'⟩ | ⟨hlow', hd⟩ <;>
    rw [hc, hd] at h <;>
    simp only [List.cons_append, List.nil_append, List.cons.injEq] at h
  · exact h
  · exact absurd h.1 hslash
  · exact absurd h.1 hslash
  · exact absurd h.1.symm hslash'
  · obtain ⟨-, rfl, rfl⟩ := h
    exact ⟨named_inj he he', rfl⟩
  · obtain ⟨-, rfl, -⟩ := h
    exact absurd he (hnamed c)
  · exact absurd h.1.symm hslash'
  · obtain ⟨-, rfl, -⟩ := h
    exact absurd he' (hnamed d)
  · obtain ⟨-, -, -, -, hhigh, hunit, rfl⟩ := h
    have hhigh := hexDigit_inj _ (by omega) _ (by omega) hhigh
    have hunit := hexDigit_inj _ (by omega) _ (by omega) hunit
    exact ⟨Char.toNat_inj.mp (by omega), rfl⟩

theorem escape_ne_quote (c : Char) (x y : Text) : escape c ++ x ≠ '"' :: y := by
  intro h
  rcases escape_cases c with ⟨hc, hquote, -⟩ | ⟨e, hc, -⟩ | ⟨-, hc⟩ <;> rw [hc] at h
  · exact hquote (List.cons.inj h).1
  · cases h
  · cases h

/-- The text in quotes can be told from what follows it. -/
theorem quote_append_inj {a b x y : Text} (h : quote a ++ x = quote b ++ y) : a = b ∧ x = y := by
  have hinner : ∀ a b : Text, a.flatMap escape ++ '"' :: x = b.flatMap escape ++ '"' :: y →
      a = b ∧ x = y := by
    intro a
    induction a with
    | nil =>
      intro b hb
      cases b with
      | nil => exact ⟨rfl, (List.cons.inj hb).2⟩
      | cons d b =>
        rw [List.flatMap_cons, List.append_assoc] at hb
        exact absurd hb.symm (escape_ne_quote d _ _)
    | cons c a ih =>
      intro b hb
      cases b with
      | nil =>
        rw [List.flatMap_cons, List.append_assoc] at hb
        exact absurd hb (escape_ne_quote c _ _)
      | cons d b =>
        rw [List.flatMap_cons, List.flatMap_cons, List.append_assoc, List.append_assoc] at hb
        obtain ⟨rfl, hrest⟩ := escape_append_inj hb
        obtain ⟨rfl, hxy⟩ := ih b hrest
        exact ⟨rfl, hxy⟩
  simp only [quote, List.cons_append, List.append_assoc, List.cons.injEq, true_and,
    List.nil_append] at h
  exact hinner a b h

end Json

/-! ## Runs -/

namespace Cli

/-- The output of a run shows a text: as it is, or as the field `code` of an object. -/
def Shows (format : OutputFormat) (output code : Text) : Prop :=
  match format with
  | .text => output = code
  | .json => ∃ fields, output = printed (.obj (("code", .str code) :: fields))

variable {format : OutputFormat} {output code code' : Text}

/-- An output shows one text at most. -/
theorem Shows.unique (h : Shows format output code) (h' : Shows format output code') :
    code = code' := by
  cases format with
  | text => exact h.symm.trans h'
  | json =>
    obtain ⟨fields, rfl⟩ := h
    obtain ⟨fields', heq⟩ := h'
    simp only [printed, Json.render, Json.renderAt, List.append_assoc, List.cons_append,
      List.cons.injEq, true_and, List.append_cancel_left_eq] at heq
    exact (Json.quote_append_inj heq).1

/-- The editor in which a file is refactored. -/
def editorFor (code : Text) (s : Selection) : Editor :=
  { code := code, selection := s, supportsCommands := false }

/-- What a refactoring comes to, if it gets as far as that: its configuration can be found, its key
is known and its file can be read. -/
def outcome? (config : Option Text) (key : String) (file : Text) (s : Selection)
    (env : Environment) (access : Text → Access) : Option (Editor × Except Failure Ending) :=
  match Config.find config env access, Refactoring.ofKey key, access file with
  | .ok c, .ok r, .text code =>
    some ((editorFor code s).run r (settingsFor c.settings file))
  | _, _, _ => none

/-- A refactoring was applied; the text is the new one. -/
def Applies (config : Option Text) (key : String) (file : Text) (s : Selection)
    (env : Environment) (access : Text → Access) (code : Text) : Prop :=
  ∃ after, outcome? config key file s env access = some (after, .ok .applied) ∧ after.code = code

variable {args : List Text} {env : Environment} {access : Text → Access} {config : Option Text}
  {key : String} {file : Text} {s : Selection} {write : Bool}

section Refactoring

variable {r : Refactoring} {settings : Settings} {after : Editor}

theorem refactorReport_of_applied
    (h : (editorFor code s).run r settings = (after, .ok .applied)) :
    (refactorReport r file code s write format settings).exit = 0 ∧
      (refactorReport r file code s write format settings).written =
        (if write then some (file, after.code) else none) ∧
      (write = false →
        Shows format (refactorReport r file code s write format settings).output after.code) := by
  rw [editorFor] at h
  simp only [refactorReport, h, appliedReport]
  refine ⟨trivial, trivial, ?_⟩
  rintro rfl
  cases format with
  | text => rfl
  | json => exact ⟨_, rfl⟩

theorem refactorReport_of_not_applied {result : Except Failure Ending}
    (h : (editorFor code s).run r settings = (after, result)) (hne : result ≠ .ok .applied) :
    (refactorReport r file code s write format settings).exit ≠ 0 ∧
      (refactorReport r file code s write format settings).written = none := by
  rw [editorFor] at h
  simp only [refactorReport, h]
  match result with
  | .ok .applied => exact absurd rfl hne
  | .ok (.notApplicable reason) | .error (.notApplicable reason) => exact ⟨nofun, rfl⟩
  | .error .brokenSlice => exact ⟨nofun, rfl⟩
  | .error (.fault fault) => cases format <;> exact ⟨nofun, rfl⟩

end Refactoring

/-- The two ways a refactoring can go. -/
theorem report_refactor (env : Environment) (access : Text → Access)
    (h : Args.read args = .ok ⟨config, .refactor key file s write format⟩) :
    (∃ code, Applies config key file s env access code ∧ (report args env access).exit = 0 ∧
      (report args env access).written = (if write then some (file, code) else none) ∧
      (write = false → Shows format (report args env access).output code)) ∨
    (¬ ∃ code, Applies config key file s env access code) ∧ (report args env access).exit ≠ 0 ∧
      (report args env access).written = none := by
  have hnone (hnone : outcome? config key file s env access = none) :
      ¬ ∃ code, Applies config key file s env access code := by
    rintro ⟨code, after, hafter, -⟩
    rw [hnone] at hafter
    cases hafter
  simp only [report, h]
  cases hconfig : Config.find config env access with
  | error fault => exact .inr ⟨hnone (by simp only [outcome?, hconfig]), nofun, rfl⟩
  | ok c =>
    simp only [perform]
    cases hkey : Refactoring.ofKey key with
    | error fault => exact .inr ⟨hnone (by simp only [outcome?, hconfig, hkey]), nofun, rfl⟩
    | ok r =>
      cases hfile : access file with
      | text code =>
        obtain ⟨⟨after, result⟩, hrun⟩ :
            ∃ done, (editorFor code s).run r (settingsFor c.settings file) = done := ⟨_, rfl⟩
        have houtcome : outcome? config key file s env access = some (after, result) := by
          simp only [outcome?, hconfig, hkey, hfile]
          exact congrArg some hrun
        by_cases happlied : result = .ok .applied
        · rw [happlied] at hrun houtcome
          exact .inl ⟨after.code, ⟨after, houtcome, rfl⟩, refactorReport_of_applied hrun⟩
        · refine .inr ⟨?_, refactorReport_of_not_applied hrun happlied⟩
          rintro ⟨code, after', hafter, -⟩
          rw [houtcome] at hafter
          cases hafter
          exact happlied rfl
      | directory | missing | blocked | unreadable =>
        exact .inr ⟨hnone (by simp only [outcome?, hconfig, hkey, hfile]), nofun, rfl⟩

theorem perform_written_of_not_refactor {task : Task} {settings : Settings}
    (h : ∀ key file s write format, task ≠ .refactor key file s write format) :
    (perform task settings access).written = none := by
  cases task with
  | refactor key file s write format => exact absurd rfl (h key file s write format)
  | list format => cases format <;> rfl
  | actions file s format =>
    simp only [perform]
    split
    · split
      · cases format <;> rfl
      · rfl
    · rfl

/-- Nothing but a refactoring that is told to write writes. -/
theorem exists_of_written (h : (report args env access).written ≠ none) :
    ∃ config key file s format,
      Args.read args = .ok ⟨config, .refactor key file s true format⟩ := by
  cases hread : Args.read args with
  | error halt =>
    simp only [report, hread] at h
    cases halt <;> exact absurd rfl h
  | ok invocation =>
    obtain ⟨config, task⟩ := invocation
    by_cases htask : ∃ key file s write format, task = .refactor key file s write format
    · obtain ⟨key, file, s, write, format, rfl⟩ := htask
      cases write with
      | true => exact ⟨config, key, file, s, format, rfl⟩
      | false =>
        obtain ⟨_, -, -, hwritten, -⟩ | ⟨-, -, hwritten⟩ :=
          report_refactor env access hread
        all_goals exact absurd hwritten h
    · simp only [report, hread] at h
      split at h
      · exact absurd rfl h
      · refine absurd (perform_written_of_not_refactor ?_) h
        exact fun key file s write format heq => htask ⟨key, file, s, write, format, heq⟩

theorem Applies.unique (h : Applies config key file s env access code)
    (h' : Applies config key file s env access code') : code = code' := by
  obtain ⟨after, hafter, rfl⟩ := h
  obtain ⟨after', hafter', rfl⟩ := h'
  rw [hafter] at hafter'
  cases hafter'
  rfl

theorem Applies.access_eq_text (h : Applies config key file s env access code) :
    ∃ before, access file = .text before := by
  obtain ⟨after, hafter, -⟩ := h
  rw [outcome?] at hafter
  split at hafter
  case h_1 before _ _ hfile => exact ⟨before, hfile⟩
  case h_2 => cases hafter

/-- A run does to a workspace what it does to its disk. -/
theorem run_disk (w : Workspace) :
    run args env w.disk = ((run args env w).1, (run args env w).2.disk) := by
  have haccess : w.disk.access = w.access := funext fun _ => Workspace.access_disk
  simp only [run, applyTo, Files.access, Files.write, haccess]
  cases (report args env w.access).written with
  | none => rfl
  | some written => simp only [Workspace.disk_write]

/-- **A run never damages a file.** Whatever the arguments and whatever the files, these stay as
they are unless the arguments spell a refactoring with `--write` and the exit code is zero. The exit
code of a refactoring is zero if and only if it was applied. Where it was told to write, then, the
arguments without `--write` spell the same command; and whichever arguments spell that command, in
either format, its output shows just one text, which the named file holds afterwards, while every
other file holds the bytes that it held before and every path leads where it led. -/
theorem run_keeps_files {Place : Type} [DecidableEq Place] (args : List Text) (env : Environment)
    (disk : Disk Place) :
    ((run args env disk).2 ≠ disk → ∃ config key file s format,
      Args.read args = .ok ⟨config, .refactor key file s true format⟩ ∧
        (run args env disk).1.exit = 0) ∧
    ∀ config key file s write format,
      Args.read args = .ok ⟨config, .refactor key file s write format⟩ →
      ((run args env disk).1.exit = 0 ↔ ∃ code, Applies config key file s env disk.access code) ∧
      ((run args env disk).1.exit = 0 → write = true →
        Args.read (Args.withoutWrite args) = .ok ⟨config, .refactor key file s false format⟩ ∧
        ∀ args' format', Args.read args' = .ok ⟨config, .refactor key file s false format'⟩ →
          ∃ place code, disk.locate file = .ok place ∧
            Shows format' (run args' env disk).1.output code ∧
            (∀ other, Shows format' (run args' env disk).1.output other → other = code) ∧
            (run args env disk).2.content place = Text.bytes code ∧
            (∀ other, other ≠ place → (run args env disk).2.content other = disk.content other) ∧
            (run args env disk).2.locate = disk.locate) := by
  have hunwritten (hnone : (report args env disk.access).written = none) :
      (run args env disk).2 = disk := by
    simp only [run, applyTo, Files.access, hnone]
  constructor
  · intro hchanged
    obtain ⟨config, key, file, s, format, hread⟩ :=
      exists_of_written fun hnone => hchanged (hunwritten hnone)
    refine ⟨config, key, file, s, format, hread, ?_⟩
    obtain ⟨_, -, hexit, -⟩ | ⟨-, -, hnone⟩ := report_refactor env disk.access hread
    · exact hexit
    · exact absurd (hunwritten hnone) hchanged
  · intro config key file s write format hread
    obtain ⟨code, happlies, hexit, hwritten, -⟩ | ⟨hnot, hexit, -⟩ :=
      report_refactor env disk.access hread
    · refine ⟨⟨fun _ => ⟨code, happlies⟩, fun _ => hexit⟩, ?_⟩
      rintro - rfl
      refine ⟨Args.read_withoutWrite hread, fun args' format' hread' => ?_⟩
      obtain ⟨before, hbefore⟩ := happlies.access_eq_text
      obtain ⟨place, hplace⟩ := Disk.exists_of_access hbefore
      have hafter : (run args env disk).2 = disk.put place (Text.bytes code) := by
        rw [← Disk.write_of_locate hplace]
        simp only [run, applyTo, Files.access, Files.write, hwritten, if_true]
      -- the command without `--write` applies too, and to the same effect
      obtain ⟨code', happlies', -, -, hshows⟩ | ⟨hnot, -⟩ :=
        report_refactor env disk.access hread'
      · obtain rfl := happlies.unique happlies'
        refine ⟨place, code, hplace, hshows rfl, fun other hother => hother.unique (hshows rfl),
          ?_, ?_, ?_⟩
        · rw [hafter]
          exact if_pos rfl
        · intro other hother
          rw [hafter]
          exact if_neg hother
        · rw [hafter]
          rfl
      · exact absurd ⟨code, happlies⟩ hnot
    · exact ⟨⟨fun hzero => absurd hzero hexit, fun happlies => absurd happlies hnot⟩,
        fun hzero => absurd hzero hexit⟩

/-- Arguments that ask for a conditional to be flipped. -/
def flipArgs (file : Text) : List Text :=
  ["refactor".toList, "flipTernary".toList, file, "--write".toList, "--line".toList, "0".toList,
    "--column=0".toList]

/-- A disk with a conditional in one file and bytes that are no text in another. -/
def twoFiles : Disk Bool where
  locate path :=
    if path = "/work/a.ts".toList then .ok true
    else if path = "b.ts".toList then .ok false
    else .error .missing
  content place := if place then Text.bytes "a ? b : c".toList else ⟨#[0xff]⟩
  ne_text := by
    intro path a h text
    split_ifs at h
    cases h
    exact nofun

/-- The conditional is flipped in the file that is named; the other file cannot be read. -/
theorem run_keeps_files_flip :
    Args.read (flipArgs "/work/a.ts".toList) =
        .ok ⟨none, .refactor "flipTernary" "/work/a.ts".toList (.cursor ⟨0, 0⟩) true .text⟩ ∧
      (run (flipArgs "/work/a.ts".toList) [] twoFiles).1.exit = 0 ∧
      (∃ code, Applies none "flipTernary" "/work/a.ts".toList (.cursor ⟨0, 0⟩) [] twoFiles.access
        code) ∧
      (run (Args.withoutWrite (flipArgs "/work/a.ts".toList)) [] twoFiles).1.output =
        "!a ? c : b".toList ∧
      (run (flipArgs "/work/a.ts".toList) [] twoFiles).2.content true =
        Text.bytes "!a ? c : b".toList ∧
      (run (flipArgs "/work/a.ts".toList) [] twoFiles).2.content false = ⟨#[0xff]⟩ ∧
      (run (flipArgs "b.ts".toList) [] twoFiles).1.exit ≠ 0 := by
  have haccess : twoFiles.access = fun path =>
      if path = "/work/a.ts".toList then .text "a ? b : c".toList
      else if path = "b.ts".toList then .unreadable
      else .missing := by
    funext path
    have hbytes : Access.ofBytes ⟨#[0xff]⟩ = .unreadable := by decide +kernel
    simp only [Disk.access, twoFiles]
    split_ifs <;> simp [hbytes]
  have hread : Args.read (flipArgs "/work/a.ts".toList) =
      .ok ⟨none, .refactor "flipTernary" "/work/a.ts".toList (.cursor ⟨0, 0⟩) true .text⟩ := rfl
  have hexit : (run (flipArgs "/work/a.ts".toList) [] twoFiles).1.exit = 0 := by
    simp only [run, Files.access, haccess]
    decide +kernel
  have houtput : (run (Args.withoutWrite (flipArgs "/work/a.ts".toList)) [] twoFiles).1.output =
      "!a ? c : b".toList := by
    simp only [run, Files.access, haccess]
    decide +kernel
  have hfails : (run (flipArgs "b.ts".toList) [] twoFiles).1.exit ≠ 0 := by
    simp only [run, Files.access, haccess]
    decide +kernel
  obtain ⟨happlies, hwrites⟩ :=
    (run_keeps_files (flipArgs "/work/a.ts".toList) [] twoFiles).2 _ _ _ _ _ _ hread
  obtain ⟨hread', hwrites⟩ := hwrites hexit rfl
  obtain ⟨place, code, hplace, hshows, -, hfile, hothers, -⟩ := hwrites _ _ hread'
  have hcode : "!a ? c : b".toList = code := houtput.symm.trans hshows
  subst hcode
  obtain rfl : true = place := by
    change Except.ok true = Except.ok place at hplace
    exact Except.ok.inj hplace
  exact ⟨hread, hexit, happlies.mp hexit, houtput, hfile, hothers false nofun, hfails⟩

end Cli

end Retouch

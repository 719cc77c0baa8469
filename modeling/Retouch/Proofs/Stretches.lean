import Retouch.Proofs.Lexing
import Retouch.Proofs.Slices

/-!
# Texts cut into stretches

-/

namespace Retouch.Syntax

variable {after : Text} {e : Edge}

/-- A stretch of a text with the lexemes in it and the edge at its end. -/
structure Stretch where
  text : Text
  lexemes : List Lexeme
  edge : Edge

namespace Stretch

/-- The text of stretches one after the other. -/
def texts (ss : List Stretch) : Text := ss.flatMap text

/-- The lexemes of stretches one after the other. -/
def allLexemes (ss : List Stretch) : List Lexeme := ss.flatMap lexemes

@[simp] theorem texts_nil : texts [] = [] := rfl

@[simp] theorem texts_cons (s : Stretch) (ss : List Stretch) : texts (s :: ss) = s.text ++ texts ss :=
  List.flatMap_cons

@[simp] theorem allLexemes_nil : allLexemes [] = [] := rfl

@[simp] theorem allLexemes_cons (s : Stretch) (ss : List Stretch) :
    allLexemes (s :: ss) = s.lexemes ++ allLexemes ss :=
  List.flatMap_cons

/-- A stretch of one lexeme. -/
def lone (l : Lexeme) : Stretch := ⟨l.text, [l], .lexeme l⟩

theorem lexes_lone {l : Lexeme} (hopen : e.isOpen = true) (hmanner : l.manner ≠ .markup)
    (hink : opensTrivia e.broken (l.text ++ after) = false) (htakes : l.Takes after) :
    Lexes after e (lone l).text (lone l).lexemes (lone l).edge := by
  have h : Lexes after e (l.text ++ []) [l] (.lexeme l) :=
    .lexeme hopen hmanner hink htakes (.nil _)
  rwa [List.append_nil] at h

/-- Stretches that are read one after the other, as they stand. -/
inductive Chain : Edge → List Stretch → Prop where
  | nil (e : Edge) : Chain e []
  | cons {e : Edge} {s : Stretch} {ss : List Stretch}
      (hs : Lexes (texts ss) e s.text s.lexemes s.edge) (hss : Chain s.edge ss) : Chain e (s :: ss)

/-- Stretches each of which is read where the one before it ends, before some text. -/
inductive Linked : Edge → List Stretch → Prop where
  | nil (e : Edge) : Linked e []
  | cons {e : Edge} {s : Stretch} {ss : List Stretch} (after : Text)
      (hs : Lexes after e s.text s.lexemes s.edge) (hss : Linked s.edge ss) : Linked e (s :: ss)

/-- Every stretch stays as it is before those that follow it. -/
def Meeting : List Stretch → Prop
  | [] => True
  | s :: ss => s.edge.Meets s.text (texts ss) ∧ Meeting ss

instance decidableMeeting : (ss : List Stretch) → Decidable (Meeting ss)
  | [] => inferInstanceAs (Decidable True)
  | _ :: ss =>
    have := decidableMeeting ss
    inferInstanceAs (Decidable (_ ∧ _))

variable {s : Stretch} {ss : List Stretch}

theorem chain_cons :
    Chain e (s :: ss) ↔ Lexes (texts ss) e s.text s.lexemes s.edge ∧ Chain s.edge ss := by
  constructor
  · intro h
    cases h with
    | cons hs hss => exact ⟨hs, hss⟩
  · rintro ⟨hs, hss⟩
    exact .cons hs hss

theorem Linked.chain (h : Linked e ss) (hmeeting : Meeting ss) : Chain e ss := by
  induction h with
  | nil e => exact .nil e
  | cons after hs _ ih => exact .cons (hs.retarget hmeeting.1) (ih hmeeting.2)

/-- Stretches that are read one after the other are read as one text. -/
theorem Chain.exists_lexes (h : Chain e ss) :
    ∃ e', Lexes [] e (texts ss) (allLexemes ss) e' := by
  induction h with
  | nil e => exact ⟨e, .nil e⟩
  | cons hs _ ih =>
    obtain ⟨e', hss⟩ := ih
    rw [texts_cons, allLexemes_cons]
    exact ⟨e', .append (by rwa [List.append_nil]) hss⟩

/-- No stretch that ends with a word is followed by what a name goes on with. -/
def WordsApart : List Stretch → Prop
  | [] => True
  | s :: ss => (∀ l, s.edge = .lexeme l → l.isWord = true → s.text ≠ [] →
      (texts ss).head?.any continuesName = false) ∧ WordsApart ss

/-- Only words that stand apart are read as they are. -/
theorem Chain.wordsApart (h : Chain e ss) : WordsApart ss := by
  induction h with
  | nil => trivial
  | cons hs _ ih =>
    exact ⟨fun l hl hword hne => (hs.last hl hne).1.not_continuesName hword, ih⟩

/-- A stretch that starts and ends with a lexeme, also where it is moved to the start of a line. -/
structure IsPhrase (s : Stretch) : Prop where
  ink : opensTrivia true s.text = false
  starts : ∃ l ∈ s.lexemes.head?, l.manner ≠ .markup
  ends : ∃ l, s.edge = .lexeme l ∧ l.manner ≠ .markup

/-- A phrase is read wherever a lexeme may start. -/
theorem IsPhrase.lexes {f : Edge} (hs : s.IsPhrase) (h : Lexes after e s.text s.lexemes s.edge)
    (he : e.isOpen = true) (hf : f.isOpen = true) : Lexes [] f s.text s.lexemes s.edge := by
  have halone : Lexes [] e s.text s.lexemes s.edge := h.retarget (s.edge.meets_nil s.text)
  exact halone.restart hs.starts he hf (.inr (by rw [List.append_nil]; exact hs.ink))

/-! ## Stretches of a document -/

/-- Where a stretch stands behind others. -/
def spanAfter (before : List Stretch) (s : Stretch) : Span :=
  ⟨Text.size (texts before), Text.size (texts before) + Text.size s.text⟩

/-- The text of a range is the stretch that stands there. -/
theorem slice_spanAfter {d : Document} {before behind : List Stretch}
    (h : d.text = texts (before ++ s :: behind)) : d.slice (spanAfter before s) = .ok s.text := by
  rw [Document.slice_eq_ok, Text.slice?_eq_some_iff]
  refine ⟨texts before, texts behind, ?_, rfl, rfl⟩
  rw [h, texts, List.flatMap_append, List.flatMap_cons, List.append_assoc]
  rfl

/-- The indentation of a line separates lexemes. -/
theorem isSeparator_of_isIndent {c : Char} (hc : Text.isIndent c = true) : isSeparator c = true := by
  rcases Bool.or_eq_true_iff.mp hc with h | h
  · rw [eq_of_beq h]
    decide
  · rw [eq_of_beq h]
    decide

theorem isSeparator_of_mem_indentation {text : Text} {n : Nat} {c : Char}
    (hc : c ∈ text.indentation n) : isSeparator c = true := by
  unfold Text.indentation at hc
  split at hc
  · exact isSeparator_of_isIndent (List.mem_takeWhile_imp hc)
  · cases hc

end Stretch

end Retouch.Syntax

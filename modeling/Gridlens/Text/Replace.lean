import Mathlib.Data.List.Infix

/-!
# Replacing one word in a text

Texts are lists over any alphabet. `replace` goes through a text from the left
and puts `new` in the place of each `old` it comes to, the occurrences not
overlapping. What stays of the text are the chunks between them, none of which
has `old` in it (`replace_cases`). A word kept `Apart` from `new` can only
occur inside one of these chunks (`infix_replace`): so it does not come to
occur where it did not, and `old` itself is gone.
-/

namespace Text

variable {α : Type} {old new s l : List α}

/-! ## Words that stay apart -/

/-- No occurrence of the word touches the other one. -/
def Apart (s new : List α) : Prop := ∀ a b, s <:+: a ++ new ++ b → s <:+: a ∨ s <:+: b

/-- A word is on one side of a letter it does not have. -/
theorem infix_append_cons {x : α} {a b : List α} (hx : x ∉ s) :
    s <:+: a ++ x :: b ↔ s <:+: a ∨ s <:+: b := by
  constructor
  · intro h
    rcases List.infix_append_iff.mp h with hleft | hright | ⟨front, back, rfl, hfront, hback⟩
    · exact Or.inl hleft
    · rcases List.infix_cons_iff.mp hright with hpre | hright
      · cases s with
        | nil => exact Or.inl (List.nil_infix)
        | cons c s =>
            rw [List.cons_prefix_cons] at hpre
            exact absurd (hpre.1 ▸ List.mem_cons_self) hx
      · exact Or.inr hright
    · cases back with
      | nil =>
          rw [List.append_nil]
          exact Or.inl hfront.isInfix
      | cons c back =>
          rw [List.cons_prefix_cons] at hback
          exact absurd (hback.1 ▸ List.mem_append_right _ List.mem_cons_self) hx
  · rintro (h | h)
    · exact h.trans (List.prefix_append a _).isInfix
    · exact (List.infix_cons h).trans (List.suffix_append a _).isInfix

/-- What stands between two letters a word does not have is apart from the
word, unless the word is in it. -/
theorem apart_fenced {x y : α} {mid : List α} (hx : x ∉ s) (hy : y ∉ s) (hmid : ¬ s <:+: mid) :
    Apart s (x :: mid ++ [y]) := by
  intro a b h
  have hsplit : a ++ (x :: mid ++ [y]) ++ b = a ++ x :: (mid ++ y :: b) := by simp
  rw [hsplit, infix_append_cons hx, infix_append_cons hy] at h
  rcases h with h | h | h
  · exact Or.inl h
  · exact absurd h hmid
  · exact Or.inr h

/-! ## One word -/

variable [DecidableEq α]

/-- The next `skip` letters are gone already. -/
def replaceFrom (old new : List α) : Nat → List α → List α
  | _, [] => []
  | skip + 1, _ :: rest => replaceFrom old new skip rest
  | 0, c :: rest =>
      if old <+: c :: rest then new ++ replaceFrom old new (old.length - 1) rest
      else c :: replaceFrom old new 0 rest

/-- Every `old` replaced by `new`; `old` is not empty. -/
def replace (old new l : List α) : List α := replaceFrom old new 0 l

theorem replaceFrom_eq (skip : Nat) (l : List α) :
    replaceFrom old new skip l = replace old new (l.drop skip) := by
  induction l generalizing skip with
  | nil => cases skip <;> rfl
  | cons c rest ih =>
      cases skip with
      | zero => rfl
      | succ skip => exact ih skip

@[simp] theorem replace_nil : replace old new [] = [] := rfl

theorem replace_append (hold : old ≠ []) (rest : List α) :
    replace old new (old ++ rest) = new ++ replace old new rest := by
  cases old with
  | nil => exact absurd rfl hold
  | cons c old =>
      show replaceFrom (c :: old) new 0 (c :: (old ++ rest)) = _
      have hhere : c :: old <+: c :: (old ++ rest) := List.prefix_append (c :: old) rest
      rw [replaceFrom, if_pos hhere, replaceFrom_eq]
      simp

theorem replace_cons_of_not_here {c : α} {rest : List α} (h : ¬ old <+: c :: rest) :
    replace old new (c :: rest) = c :: replace old new rest := if_neg h

/-- A text without the word stays, and one with it begins with a chunk that
has none. -/
theorem replace_cases (hold : old ≠ []) (l : List α) :
    (¬ old <:+: l ∧ replace old new l = l) ∨
      ∃ chunk rest, l = chunk ++ old ++ rest ∧ ¬ old <:+: chunk ∧
        replace old new l = chunk ++ new ++ replace old new rest := by
  have hnil : ¬ old <:+: [] := fun h => hold (List.infix_nil.mp h)
  induction l with
  | nil => exact Or.inl ⟨hnil, rfl⟩
  | cons c l ih =>
      by_cases hhere : old <+: c :: l
      · rcases hhere with ⟨rest, hrest⟩
        refine Or.inr ⟨[], rest, hrest.symm, hnil, ?_⟩
        rw [← hrest, replace_append hold]
        rfl
      · rw [replace_cons_of_not_here hhere]
        rcases ih with ⟨hnone, hsame⟩ | ⟨chunk, rest, rfl, hchunk, hreplace⟩
        · refine Or.inl ⟨fun hin => ?_, by rw [hsame]⟩
          rcases List.infix_cons_iff.mp hin with hpre | hin
          · exact hhere hpre
          · exact hnone hin
        · refine Or.inr ⟨c :: chunk, rest, rfl, fun hin => ?_, by rw [hreplace]; rfl⟩
          rcases List.infix_cons_iff.mp hin with hpre | hin
          · exact hhere (hpre.trans ⟨old ++ rest, by simp⟩)
          · exact hchunk hin

/-- A word apart from `new` occurs in a chunk of what was there, if at all. -/
theorem infix_replace (hold : old ≠ []) (hapart : Apart s new) (h : s <:+: replace old new l) :
    ∃ chunk, s <:+: chunk ∧ chunk <:+: l ∧ ¬ old <:+: chunk := by
  induction hlen : l.length using Nat.strongRecOn generalizing l with
  | ind n ih =>
      rcases @replace_cases α old new _ hold l with ⟨hnone, hsame⟩ | ⟨chunk, rest, rfl, hchunk, heq⟩
      · rw [hsame] at h
        exact ⟨l, h, List.infix_rfl, hnone⟩
      · rw [heq] at h
        rcases hapart _ _ h with h | h
        · exact ⟨chunk, h, ⟨[], old ++ rest, by simp⟩, hchunk⟩
        · have hshort : rest.length < n := by
            have hpos := List.length_pos_iff.mpr hold
            rw [← hlen, List.length_append, List.length_append]
            omega
          rcases ih rest.length hshort h rfl with ⟨chunk', hin, hrest, hclean⟩
          exact ⟨chunk', hin, hrest.trans (List.suffix_append _ _).isInfix, hclean⟩

/-- It does not come to occur. -/
theorem infix_of_replace (hold : old ≠ []) (hapart : Apart s new)
    (h : s <:+: replace old new l) : s <:+: l := by
  rcases infix_replace hold hapart h with ⟨chunk, hin, hchunk, -⟩
  exact hin.trans hchunk

/-- The word replaced is gone. -/
theorem not_infix_replace (hold : old ≠ []) (hapart : Apart old new) :
    ¬ old <:+: replace old new l := by
  intro h
  rcases infix_replace hold hapart h with ⟨chunk, hin, -, hclean⟩
  exact hclean hin

/-! ## Several words, one after the other -/

/-- Each word of the list replaced, in turn. -/
def replaceAll (words : List (List α)) (new l : List α) : List α :=
  words.foldl (fun text old => replace old new text) l

variable {words : List (List α)}

theorem infix_of_replaceAll (hwords : ∀ old ∈ words, old ≠ []) (hapart : Apart s new)
    (h : s <:+: replaceAll words new l) : s <:+: l := by
  induction words generalizing l with
  | nil => exact h
  | cons old words ih =>
      have hrest := ih (fun w hw => hwords w (List.mem_cons_of_mem old hw)) h
      exact infix_of_replace (hwords old List.mem_cons_self) hapart hrest

/-- None of the words is left. -/
theorem not_infix_replaceAll (hwords : ∀ old ∈ words, old ≠ []) (hs : s ∈ words)
    (hapart : Apart s new) : ¬ s <:+: replaceAll words new l := by
  induction words generalizing l with
  | nil => cases hs
  | cons old words ih =>
      have hrest : ∀ w ∈ words, w ≠ [] := fun w hw => hwords w (List.mem_cons_of_mem old hw)
      rcases List.mem_cons.mp hs with rfl | hs
      · intro h
        exact not_infix_replace (hwords s List.mem_cons_self) hapart
          (infix_of_replaceAll hrest hapart h)
      · exact ih hrest hs

end Text

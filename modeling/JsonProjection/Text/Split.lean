/-
# `JsonProjection.Text.Split` -- a text cut at a character.

`splitAt` gives the parts between the occurrences of a character, among them the empty ones; a text
without an occurrence is one part.
-/
namespace JsonProjection.Text

/-- **The parts of a text** between the occurrences of a character. -/
def splitAt (mark : Char) : List Char → List (List Char)
  | [] => [[]]
  | c :: cs =>
    if c = mark then [] :: splitAt mark cs
    else
      match splitAt mark cs with
      | part :: parts => (c :: part) :: parts
      | [] => [[c]]

/-- There is always a part. -/
theorem splitAt_ne_nil (mark : Char) (cs : List Char) : splitAt mark cs ≠ [] := by
  cases cs with
  | nil => exact List.cons_ne_nil _ _
  | cons c cs =>
      unfold splitAt
      split
      · exact List.cons_ne_nil _ _
      · split <;> exact List.cons_ne_nil _ _

/-- A part without the mark ends at the mark. -/
theorem splitAt_append_mark {mark : Char} {part : List Char} (h : mark ∉ part) (rest : List Char) :
    splitAt mark (part ++ mark :: rest) = part :: splitAt mark rest := by
  induction part with
  | nil => simp [splitAt]
  | cons c part ih =>
      obtain ⟨hc, hpart⟩ := not_or.mp (mt List.mem_cons.mpr h)
      simp [splitAt, ih hpart, Ne.symm hc]

/-- A text tells what stands before its first mark, and what behind it. -/
theorem append_mark_inj {mark : Char} {part part' rest rest' : List Char} (h : mark ∉ part)
    (h' : mark ∉ part') (heq : part ++ mark :: rest = part' ++ mark :: rest') :
    part = part' ∧ rest = rest' := by
  have hparts := congrArg (splitAt mark) heq
  rw [splitAt_append_mark h, splitAt_append_mark h'] at hparts
  obtain ⟨rfl, -⟩ := List.cons.inj hparts
  exact ⟨rfl, (List.cons.inj (List.append_cancel_left heq)).2⟩

end JsonProjection.Text

/-! Texts as lists of characters, measured and cut in UTF-8 bytes. A cut is possible
exactly between two characters. -/

namespace Stencil.Text

def bytes : List Char → Nat
  | [] => 0
  | c :: rest => c.utf8Size + bytes rest

theorem bytes_append (front back : List Char) :
    bytes (front ++ back) = bytes front + bytes back := by
  induction front with
  | nil => simp [bytes]
  | cons c rest ih => simp [bytes, ih, Nat.add_assoc]

/-- The text before and after a byte offset, none where the offset lies inside a
character or beyond the end. -/
def cut? : Nat → List Char → Option (List Char × List Char)
  | 0, text => some ([], text)
  | _ + 1, [] => none
  | n + 1, c :: rest =>
      if c.utf8Size ≤ n + 1 then
        (cut? (n + 1 - c.utf8Size) rest).map fun (front, back) => (c :: front, back)
      else none

theorem cut?_bytes (front back : List Char) :
    cut? (bytes front) (front ++ back) = some (front, back) := by
  induction front with
  | nil => simp [bytes, cut?]
  | cons c rest ih =>
      have positive : 0 < c.utf8Size := Char.utf8Size_pos c
      obtain ⟨n, size⟩ : ∃ n, bytes (c :: rest) = n + 1 :=
        ⟨bytes (c :: rest) - 1, by simp only [bytes]; omega⟩
      have fits : c.utf8Size ≤ n + 1 := by rw [← size]; simp only [bytes]; omega
      have remaining : n + 1 - c.utf8Size = bytes rest := by
        rw [← size]; simp only [bytes]; omega
      rw [size, List.cons_append, cut?, if_pos fits, remaining, ih]
      rfl

theorem append_of_cut? {n : Nat} {text front back : List Char}
    (found : cut? n text = some (front, back)) : front ++ back = text ∧ bytes front = n := by
  induction text generalizing n front back with
  | nil =>
      cases n with
      | zero => simp only [cut?, Option.some.injEq, Prod.mk.injEq] at found; simp [← found, bytes]
      | succ n => simp [cut?] at found
  | cons c rest ih =>
      cases n with
      | zero => simp only [cut?, Option.some.injEq, Prod.mk.injEq] at found; simp [← found, bytes]
      | succ n =>
          rw [cut?] at found
          split at found
          · rename_i fits
            obtain ⟨⟨front', back'⟩, inner, same⟩ := Option.map_eq_some_iff.1 found
            obtain ⟨rfl, rfl⟩ := Prod.mk.injEq .. ▸ same
            obtain ⟨joined, size⟩ := ih inner
            refine ⟨by simp [joined], ?_⟩
            simp only [bytes, size]
            omega
          · cases found

end Stencil.Text

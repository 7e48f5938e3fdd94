import Mathlib.Data.List.Induction
import Bracescript.Proofs.Position

/-!
# Runs of a cursor

A cursor is moved forward, saved and put back in any order. Its line and its column are kept up to date on the way, and they
are always those that the file has for the offset. Looking ahead adds to the offset in words of 32 bits, so it agrees with
moving ahead as long as the sum is no more than a word can hold.
-/

namespace Bracescript

theorem SourceFile.toNat_size {f : SourceFile} (hfit : f.content.length < 2 ^ 32) : f.size.toNat = f.content.length :=
  UInt32.toNat_ofNat_of_lt hfit

namespace Cursor

/-! ## What is done with a cursor -/

/-- A step with a cursor. A mark is known by its number, in the order in which the marks were taken. -/
inductive Operation where
  | bump
  | advance (n : Int)
  | eat (b : UInt8)
  | mark
  | reset (i : Nat)

/-- A cursor with the marks that were taken from it. -/
structure Reading where
  cursor : Cursor
  marks : List Mark

namespace Reading

def apply (r : Reading) : Operation → Reading
  | .bump => { r with cursor := r.cursor.bump }
  | .advance n => { r with cursor := r.cursor.advance n.toNat }
  | .eat b => { r with cursor := (r.cursor.eat b).2 }
  | .mark => { r with marks := r.marks ++ [r.cursor.toMark] }
  | .reset i =>
    match r.marks[i]? with
    | some m => { r with cursor := r.cursor.reset m }
    | none => r

/-- A file read from its first byte on. -/
def run (f : SourceFile) (ops : List Operation) : Reading := ops.foldl apply ⟨.start f, []⟩

theorem run_concat (f : SourceFile) (ops : List Operation) (op : Operation) : run f (ops ++ [op]) = (run f ops).apply op := by
  simp [run]

end Reading

/-! ## Bookkeeping -/

variable {f : SourceFile} {c : Cursor}

theorem Stands.getElem?_off (h : c.Stands f) : f.content[c.off.toNat]? = c.rest.head? := by
  rw [h.mark.rest_eq, List.head?_drop]

theorem Stands.off_lt_iff (hfit : f.content.length < 2 ^ 32) (h : c.Stands f) : c.off < f.size ↔ c.rest ≠ [] := by
  have hlength := h.length_rest
  rw [UInt32.lt_iff_toNat_lt, SourceFile.toNat_size hfit, ← List.length_pos_iff]
  omega

/-- A byte is eaten if it is the next one, and then only that byte. -/
theorem eat_eq (c : Cursor) (b : UInt8) : c.eat b = if c.rest.head? = some b then (true, c.bump) else (false, c) := by
  unfold eat
  split
  · rename_i hrest
    simp [hrest]
  · rename_i next rest hrest
    simp [hrest]

theorem Stands.eat (hfit : f.content.length < 2 ^ 32) (h : c.Stands f) (b : UInt8) : (c.eat b).2.Stands f := by
  rw [eat_eq]
  split
  · exact (h.bump hfit).1
  · exact h

namespace Reading

theorem marks_apply {r : Reading} {op : Operation} {m : Mark} (h : m ∈ (r.apply op).marks) :
    m ∈ r.marks ∨ op = .mark ∧ m = r.cursor.toMark := by
  cases op with
  | bump | advance n | eat b => exact .inl h
  | mark =>
    rcases List.mem_append.mp h with h | h
    · exact .inl h
    · exact .inr ⟨rfl, List.mem_singleton.mp h⟩
  | reset i =>
    unfold apply at h
    cases hmark : r.marks[i]? with
    | none =>
      simp only [hmark] at h
      exact .inl h
    | some m' =>
      simp only [hmark] at h
      exact .inl h

/-- The cursor and all marks are at places that belong together. -/
structure Stands (f : SourceFile) (r : Reading) : Prop where
  cursor : r.cursor.Stands f
  marks : ∀ m ∈ r.marks, m.Stands f

theorem Stands.apply {r : Reading} (hfit : f.content.length < 2 ^ 32) (h : r.Stands f) (op : Operation) :
    (r.apply op).Stands f := by
  refine ⟨?_, fun m hm => ?_⟩
  · cases op with
    | bump => exact (h.cursor.bump hfit).1
    | advance n => exact (h.cursor.advance hfit n.toNat).1
    | eat b => exact h.cursor.eat hfit b
    | mark => exact h.cursor
    | reset i =>
      unfold Reading.apply
      cases hmark : r.marks[i]? with
      | none => simpa only [hmark] using h.cursor
      | some m =>
        simp only [hmark]
        exact ⟨h.marks m (List.mem_of_getElem? hmark), h.cursor.file_eq, h.cursor.content_eq⟩
  · rcases marks_apply hm with hold | ⟨-, rfl⟩
    · exact h.marks m hold
    · exact h.cursor.mark

theorem stands_run (hfit : f.content.length < 2 ^ 32) (ops : List Operation) : (run f ops).Stands f := by
  induction ops using List.reverseRecOn with
  | nil => exact ⟨stands_start f, List.forall_mem_nil _⟩
  | append_singleton ops op ih =>
    rw [run_concat]
    exact ih.apply hfit op

/-- A mark is the place of the cursor at the time when it was taken. -/
theorem mark_taken {ops : List Operation} {m : Mark} (h : m ∈ (run f ops).marks) :
    ∃ before later, ops = before ++ Operation.mark :: later ∧ m = (run f before).cursor.toMark := by
  induction ops using List.reverseRecOn with
  | nil => exact absurd h List.not_mem_nil
  | append_singleton ops op ih =>
    rw [run_concat] at h
    rcases marks_apply h with hold | ⟨rfl, hm⟩
    · obtain ⟨before, later, rfl, hm⟩ := ih hold
      exact ⟨before, later ++ [op], by simp, hm⟩
    · exact ⟨ops, [], rfl, hm⟩

/-- After any steps, with the cursor put back to marks in any order: the offset is in the file, line and column are those of
the file for the offset, what is left to read is the rest of the text, a mark has the position of the offset at which it
was taken, and a byte is eaten exactly if it is the next one of the text. -/
theorem bookkeeping_sound (hfit : f.content.length < 2 ^ 32) (ops : List Operation) :
    (run f ops).cursor.off ≤ f.size ∧
    (run f ops).cursor.pos = f.position (run f ops).cursor.off ∧
    (run f ops).cursor.rest = f.content.drop (run f ops).cursor.off.toNat ∧
    (∀ m ∈ (run f ops).marks, ∃ before later, ops = before ++ Operation.mark :: later ∧
      m = (run f before).cursor.toMark ∧ m.pos = f.position (run f before).cursor.off) ∧
    ∀ b,
      ((run f ops).cursor.off < f.size ∧ f.content[(run f ops).cursor.off.toNat]? = some b →
        (run f ops).cursor.eat b = (true, (run f ops).cursor.bump) ∧
        (run f ops).cursor.bump.off.toNat = (run f ops).cursor.off.toNat + 1) ∧
      (¬((run f ops).cursor.off < f.size ∧ f.content[(run f ops).cursor.off.toNat]? = some b) →
        (run f ops).cursor.eat b = (false, (run f ops).cursor)) := by
  have hstands := stands_run hfit ops
  have hsize := SourceFile.toNat_size hfit
  refine ⟨?_, hstands.cursor.mark.pos_eq hfit, hstands.cursor.mark.rest_eq, fun m hm => ?_, fun b => ⟨?_, ?_⟩⟩
  · rw [UInt32.le_iff_toNat_le, hsize]
    exact hstands.cursor.mark.off_le
  · obtain ⟨before, later, hops, rfl⟩ := mark_taken hm
    exact ⟨before, later, hops, rfl, (stands_run hfit before).cursor.mark.pos_eq hfit⟩
  · rintro ⟨hlt, hnext⟩
    rw [hstands.cursor.getElem?_off] at hnext
    have hbump := (hstands.cursor.bump hfit).2
    rw [UInt32.lt_iff_toNat_lt, hsize] at hlt
    exact ⟨by rw [eat_eq, if_pos hnext], by omega⟩
  · intro hother
    rw [hstands.cursor.getElem?_off, hstands.cursor.off_lt_iff hfit] at hother
    rw [eat_eq, if_neg]
    intro hnext
    exact hother ⟨fun hnil => by simp [hnil] at hnext, hnext⟩

/-- A text of two lines, the second of which begins with a zero byte. -/
def twoLines : SourceFile := ⟨0, "a", [0x78, 0x0a, 0, 0x79], FileFlags.inMemory⟩

/-- To the end and back to the first mark, over the line feed, and back to it once more. -/
def backAndForth : List Operation := [.bump, .mark, .advance 9, .mark, .reset 0, .eat 0x0a, .reset 1, .reset 0, .bump]

theorem backAndForth_sound :
    twoLines.content.length < 2 ^ 32 ∧ (run twoLines backAndForth).cursor.off = 2 ∧
      (run twoLines backAndForth).cursor.pos = twoLines.position 2 ∧
      (run twoLines backAndForth).cursor.rest = twoLines.content.drop 2 ∧
      (run twoLines backAndForth).cursor.eat 0 = (true, (run twoLines backAndForth).cursor.bump) := by
  have hfit : twoLines.content.length < 2 ^ 32 := by decide
  obtain ⟨-, hpos, hrest, -, heat⟩ := bookkeeping_sound hfit backAndForth
  exact ⟨hfit, by decide, hpos, hrest, ((heat 0).1 (by decide)).1⟩

/-! ## Looking ahead -/

theorem cursor_bumps (ops : List Operation) (n : Nat) :
    (run f (ops ++ List.replicate n Operation.bump)).cursor = (run f ops).cursor.advance n := by
  have hbumps : ∀ r : Reading, (List.replicate n Operation.bump).foldl apply r = { r with cursor := r.cursor.advance n } := by
    induction n with
    | zero => exact fun r => rfl
    | succ n ih => exact fun r => ih (r.apply .bump)
  rw [run, List.foldl_append, hbumps]
  rfl

/-- After some moves the cursor is at the byte that is so many places ahead, or at the end. -/
theorem peek_bumps (hfit : f.content.length < 2 ^ 32) (ops : List Operation) (n : Nat) :
    (run f (ops ++ List.replicate n Operation.bump)).cursor.peek =
      f.content.getD ((run f ops).cursor.off.toNat + n) 0 := by
  rw [cursor_bumps, peek, rest_advance, (stands_run hfit ops).cursor.mark.rest_eq, List.drop_drop,
    List.headD_eq_head?_getD, List.head?_drop, List.getD_eq_getElem?_getD]

/-- Looking ahead takes the sum of the offset and the distance as a word. -/
theorem peekAt_run (hfit : f.content.length < 2 ^ 32) (ops : List Operation) (n : UInt32) :
    (run f ops).cursor.peekAt n = f.content.getD (((run f ops).cursor.off.toNat + n.toNat) % 2 ^ 32) 0 := by
  rw [peekAt, (stands_run hfit ops).cursor.content_eq, UInt32.toNat_add]

/-- Past the end of the words, looking ahead comes back to the front of the text. -/
theorem peekAt_wrapped (hfit : f.content.length < 2 ^ 32) {ops : List Operation} {n : UInt32}
    (hwraps : 2 ^ 32 ≤ (run f ops).cursor.off.toNat + n.toNat) :
    f.content[(run f ops).cursor.off.toNat + n.toNat - 2 ^ 32]? = some ((run f ops).cursor.peekAt n) := by
  have hle := (stands_run hfit ops).cursor.mark.off_le
  have hn : n.toNat < 2 ^ 32 := n.toNat_lt
  have hmod : ((run f ops).cursor.off.toNat + n.toNat) % 2 ^ 32 = (run f ops).cursor.off.toNat + n.toNat - 2 ^ 32 := by omega
  have hread : (run f ops).cursor.off.toNat + n.toNat - 2 ^ 32 < f.content.length := by omega
  rw [peekAt_run hfit, hmod, List.getD_eq_getElem _ _ hread, List.getElem?_eq_getElem hread]

/-- Moving ahead and then looking gives the byte that is `n` places ahead, or zero past the end. Looking ahead gives the same
if the offset and `n` add up to a word. If they do not, it gives a byte in front of the cursor, which is right only if
that byte is zero. -/
theorem lookahead_agrees_iff (hfit : f.content.length < 2 ^ 32) (ops : List Operation) (n : UInt32) :
    (run f (ops ++ List.replicate n.toNat Operation.bump)).cursor.peek =
      f.content.getD ((run f ops).cursor.off.toNat + n.toNat) 0 ∧
    ((run f ops).cursor.peekAt n = (run f (ops ++ List.replicate n.toNat Operation.bump)).cursor.peek ↔
      (run f ops).cursor.off.toNat + n.toNat < 2 ^ 32 ∨
        f.content[(run f ops).cursor.off.toNat + n.toNat - 2 ^ 32]? = some 0) ∧
    (2 ^ 32 ≤ (run f ops).cursor.off.toNat + n.toNat →
      f.content[(run f ops).cursor.off.toNat + n.toNat - 2 ^ 32]? = some ((run f ops).cursor.peekAt n)) := by
  refine ⟨peek_bumps hfit ops n.toNat, ?_, peekAt_wrapped hfit⟩
  rw [peek_bumps hfit]
  by_cases hword : (run f ops).cursor.off.toNat + n.toNat < 2 ^ 32
  · simp only [peekAt_run hfit, Nat.mod_eq_of_lt hword, hword, true_or]
  · have hpast : f.content.length ≤ (run f ops).cursor.off.toNat + n.toNat := by omega
    rw [List.getD_eq_default _ _ hpast, peekAt_wrapped hfit (Nat.not_lt.mp hword)]
    simp only [hword, false_or, Option.some.injEq]

/-- A text of one byte. -/
def oneByte : SourceFile := ⟨0, "a", "x", FileFlags.inMemory⟩

theorem oneByte_lookahead :
    oneByte.content.length < 2 ^ 32 ∧ (run oneByte [Operation.bump]).cursor.off.toNat + UInt32.toNat 0xfffffffe < 2 ^ 32 ∧
      (run oneByte [Operation.bump]).cursor.peekAt 0xfffffffe =
        (run oneByte ([Operation.bump] ++ List.replicate (UInt32.toNat 0xfffffffe) Operation.bump)).cursor.peek := by
  have hfit : oneByte.content.length < 2 ^ 32 := by decide
  have hword : (run oneByte [Operation.bump]).cursor.off.toNat + UInt32.toNat 0xfffffffe < 2 ^ 32 := by decide
  exact ⟨hfit, hword, (lookahead_agrees_iff hfit [Operation.bump] 0xfffffffe).2.1.mpr (.inl hword)⟩

/-- Behind the only byte of a text, with a distance that makes the sum too great for a word, that byte is seen ahead. -/
theorem oneByte_seen_again :
    (run oneByte [Operation.bump]).cursor.peekAt 0xffffffff = Bytes.ascii 'x' ∧
      (run oneByte [Operation.bump]).cursor.peekAt 0xffffffff ≠
        (run oneByte ([Operation.bump] ++ List.replicate (UInt32.toNat 0xffffffff) Operation.bump)).cursor.peek := by
  have hseen : (run oneByte [Operation.bump]).cursor.peekAt 0xffffffff = Bytes.ascii 'x' := by decide
  have hpast : oneByte.content.length ≤ (run oneByte [Operation.bump]).cursor.off.toNat + UInt32.toNat 0xffffffff := by decide
  refine ⟨hseen, ?_⟩
  rw [hseen, peek_bumps (by decide), List.getD_eq_default _ _ hpast]
  decide

end Reading

end Cursor

end Bracescript

import Mathlib.Data.List.Induction
import Mathlib.Data.List.GetD
import Mathlib.Data.List.Range
import Mathlib.Algebra.Group.Basic

/-!
# Byte files

A byte file has a size and a content that is zero from the size on; the zero tail is a field of the
structure, so every byte file reads as zeros past its end.  `write` overlays a block and extends the
size to cover it, `read` takes a range, whether or not it lies below the size.

The file left by a list of writes is described by the history alone: byte `i` is the one the last
write covering `i` put there (`content_ofWrites`), and the size is the furthest end of a write
(`size_ofWrites`).  `write_eq_self_iff` says which writes leave a file as it was.
-/

namespace BankSel4

variable {β : Type*} [Zero β]

/-- `f` with the block `bs` put at `off`. -/
def overlay (f : ℕ → β) (off : ℕ) (bs : List β) : ℕ → β := fun i =>
  if off ≤ i ∧ i < off + bs.length then bs.getD (i - off) 0 else f i

theorem overlay_of_mem {f : ℕ → β} {off i : ℕ} {bs : List β} (h : off ≤ i)
    (h' : i < off + bs.length) : overlay f off bs i = bs.getD (i - off) 0 := if_pos ⟨h, h'⟩

theorem overlay_of_not_mem {f : ℕ → β} {off i : ℕ} {bs : List β}
    (h : ¬(off ≤ i ∧ i < off + bs.length)) : overlay f off bs i = f i := if_neg h

/-- A file: its bytes, all zero from its size on. -/
structure ByteFile (β : Type*) [Zero β] where
  /-- The byte at each position. -/
  content : ℕ → β
  /-- The length of the file. -/
  size : ℕ
  /-- Past the end there are zeros only. -/
  content_eq_zero : ∀ i, size ≤ i → content i = 0

namespace ByteFile

@[ext] theorem ext {f g : ByteFile β} (hc : ∀ i, f.content i = g.content i)
    (hs : f.size = g.size) : f = g := by
  obtain ⟨c, s, hf⟩ := f
  obtain ⟨c', s', hg⟩ := g
  obtain rfl : c = c' := funext hc
  obtain rfl : s = s' := hs
  rfl

/-- The file of no bytes. -/
def empty : ByteFile β := ⟨fun _ => 0, 0, fun _ _ => rfl⟩

/-- Put the block `bs` at `off`, extending the file to cover it. -/
def write (f : ByteFile β) (off : ℕ) (bs : List β) : ByteFile β where
  content := overlay f.content off bs
  size := max f.size (off + bs.length)
  content_eq_zero i hi := by
    rw [overlay_of_not_mem (by omega)]
    exact f.content_eq_zero i (by omega)

@[simp] theorem content_write (f : ByteFile β) (off : ℕ) (bs : List β) :
    (f.write off bs).content = overlay f.content off bs := rfl

@[simp] theorem size_write (f : ByteFile β) (off : ℕ) (bs : List β) :
    (f.write off bs).size = max f.size (off + bs.length) := rfl

/-- Cut the file off at `n`, if it is longer. -/
def truncate (f : ByteFile β) (n : ℕ) : ByteFile β where
  content i := if i < n then f.content i else 0
  size := min f.size n
  content_eq_zero i hi := by
    split_ifs with hlt
    · exact f.content_eq_zero i (by omega)
    · rfl

/-- The bytes of the range `[off, off + len)`. -/
def read (f : ByteFile β) (off len : ℕ) : List β :=
  (List.range len).map fun k => f.content (off + k)

@[simp] theorem length_read (f : ByteFile β) (off len : ℕ) : (f.read off len).length = len := by
  simp [read]

theorem getD_read (f : ByteFile β) {off len k : ℕ} (h : k < len) :
    (f.read off len).getD k 0 = f.content (off + k) := by
  rw [List.getD_eq_getElem _ _ (by simpa using h)]
  simp [read]

/-- A range reads as `bs` when every byte of it does. -/
theorem read_eq_iff (f : ByteFile β) {off : ℕ} {bs : List β} :
    f.read off bs.length = bs ↔ ∀ k < bs.length, f.content (off + k) = bs.getD k 0 := by
  constructor
  · intro h k hk
    rw [← getD_read f hk, h]
  · intro h
    refine List.ext_getElem (by simp) fun k hk hk' => ?_
    have := h k hk'
    rw [List.getD_eq_getElem _ _ hk'] at this
    simpa [read] using this

/-- A range reads as zeros when every byte of it is zero. -/
theorem read_eq_replicate_iff (f : ByteFile β) {off len : ℕ} :
    f.read off len = List.replicate len 0 ↔ ∀ k < len, f.content (off + k) = 0 := by
  have h : f.read off (List.replicate len (0 : β)).length = List.replicate len 0 ↔ _ :=
    f.read_eq_iff
  rw [List.length_replicate] at h
  rw [h]
  refine forall₂_congr fun k hk => ?_
  rw [List.getD_eq_getElem _ _ (by simpa using hk), List.getElem_replicate]

/-- Past the end there are zeros. -/
theorem read_of_size_le (f : ByteFile β) {off : ℕ} (h : f.size ≤ off) (len : ℕ) :
    f.read off len = List.replicate len 0 :=
  f.read_eq_replicate_iff.mpr fun _ _ => f.content_eq_zero _ (by omega)

/-- **A write leaves the file as it was** exactly when it ends below the size and the bytes it puts
are the ones already there. -/
theorem write_eq_self_iff (f : ByteFile β) (off : ℕ) (bs : List β) :
    f.write off bs = f ↔ off + bs.length ≤ f.size ∧ f.read off bs.length = bs := by
  rw [read_eq_iff]
  constructor
  · intro h
    refine ⟨?_, fun k hk => ?_⟩
    · have := congrArg size h
      rw [size_write] at this
      omega
    · rw [← congrFun (congrArg content h) (off + k), content_write,
        overlay_of_mem (by omega) (by omega), Nat.add_sub_cancel_left]
  · rintro ⟨hsize, hread⟩
    refine ext (fun i => ?_) (by rw [size_write]; omega)
    rw [content_write]
    by_cases hi : off ≤ i ∧ i < off + bs.length
    · rw [overlay_of_mem hi.1 hi.2, ← hread (i - off) (by omega), Nat.add_sub_cancel' hi.1]
    · rw [overlay_of_not_mem hi]

/-! ### The file left by a history of writes -/

/-- The file after the writes of a list of `(offset, block)` pairs, in order. -/
def ofWrites (ws : List (ℕ × List β)) : ByteFile β :=
  ws.foldl (fun f w => f.write w.1 w.2) empty

/-- Whether the write `w` puts a byte at position `i`. -/
def Covers (w : ℕ × List β) (i : ℕ) : Prop := w.1 ≤ i ∧ i < w.1 + w.2.length

instance (w : ℕ × List β) (i : ℕ) : Decidable (Covers w i) :=
  inferInstanceAs (Decidable (_ ∧ _))

/-- The byte put at position `i` by the last of the writes that covers it, or zero. -/
def lastCovering (ws : List (ℕ × List β)) (i : ℕ) : β :=
  match ws.reverse.find? fun w => decide (Covers w i) with
  | some w => w.2.getD (i - w.1) 0
  | none => 0

/-- The furthest end of a write. -/
def extent (ws : List (ℕ × List β)) : ℕ := (ws.map fun w => w.1 + w.2.length).foldr max 0

omit [Zero β] in
theorem extent_snoc (ws : List (ℕ × List β)) (w : ℕ × List β) :
    extent (ws ++ [w]) = max (extent ws) (w.1 + w.2.length) := by
  unfold extent
  induction ws with
  | nil => simp
  | cons v ws ih =>
    rw [List.cons_append, List.map_cons, List.map_cons, List.foldr_cons, List.foldr_cons, ih,
      max_assoc]

theorem lastCovering_snoc (ws : List (ℕ × List β)) (w : ℕ × List β) (i : ℕ) :
    lastCovering (ws ++ [w]) i = overlay (lastCovering ws) w.1 w.2 i := by
  unfold lastCovering
  rw [List.reverse_append, List.reverse_singleton, List.singleton_append, List.find?_cons]
  -- the new write covers the byte, or an earlier one is still the last
  by_cases h : Covers w i
  · rw [decide_eq_true h, overlay_of_mem h.1 h.2]
  · rw [decide_eq_false h, overlay_of_not_mem h]

theorem ofWrites_snoc (ws : List (ℕ × List β)) (w : ℕ × List β) :
    ofWrites (ws ++ [w]) = (ofWrites ws).write w.1 w.2 := by
  rw [ofWrites, List.foldl_append, List.foldl_cons, List.foldl_nil]
  rfl

/-- Byte `i` is the one put there by the last write covering `i`. -/
theorem content_ofWrites (ws : List (ℕ × List β)) : (ofWrites ws).content = lastCovering ws := by
  induction ws using List.reverseRecOn with
  | nil => rfl
  | append_singleton ws w ih =>
    funext i
    rw [ofWrites_snoc, content_write, ih, lastCovering_snoc]

/-- The size is the furthest end of a write. -/
theorem size_ofWrites (ws : List (ℕ × List β)) : (ofWrites ws).size = extent ws := by
  induction ws using List.reverseRecOn with
  | nil => rfl
  | append_singleton ws w ih => rw [ofWrites_snoc, size_write, ih, extent_snoc]

end ByteFile

end BankSel4

import HdlModule.Text.Span

/-!
# Bytes of a text

Offsets are counted in bytes, and a text is read character by character. A part of a text that
starts and ends between characters is found again in the bytes of the text.

## Main definitions

* `Span.FitsIn text span`: the span starts and ends between characters of the text
* `Span.Covers text span cs`: the characters stand in the text at the span
* `Span.counted?`: the span of some bytes behind an offset, counted in 32 bits

## Main results

* `byteLength_toList`: the characters of a text take all its bytes
* `Span.Covers.fitsIn`, `Span.Covers.extract_eq`: the bytes at a span are those of the characters
  that stand there
-/

namespace HdlModule

/-- The characters of a text take all its bytes. -/
theorem utf8ByteSize_ofList (cs : List Char) : (String.ofList cs).utf8ByteSize = byteLength cs := by
  induction cs with
  | nil => rfl
  | cons c cs ih =>
    rw [String.ofList_cons, String.utf8ByteSize_append, String.utf8ByteSize_singleton, ih,
      byteLength_cons]

theorem byteLength_toList (text : String) : byteLength text.toList = text.utf8ByteSize := by
  rw [← utf8ByteSize_ofList, String.ofList_toList]

namespace Span

/-! ### Spans between characters -/

section FitsIn

variable {text : String} {a b : Span}

/-- The span does not end in front of its start or behind the end of the text, and it starts and
ends between characters of the text. -/
structure FitsIn (text : String) (span : Span) : Prop where
  start_le_stop : span.start ≤ span.stop
  stop_le : span.stop ≤ text.utf8ByteSize
  start_valid : (⟨span.start⟩ : String.Pos.Raw).IsValid text
  stop_valid : (⟨span.stop⟩ : String.Pos.Raw).IsValid text

theorem fitsIn_emptyAt {offset : Nat} (h : (⟨offset⟩ : String.Pos.Raw).IsValid text) :
    (emptyAt offset).FitsIn text :=
  ⟨Nat.le_refl _, h.le_utf8ByteSize, h, h⟩

theorem fitsIn_emptyAt_zero (text : String) : (emptyAt 0).FitsIn text :=
  fitsIn_emptyAt String.Pos.Raw.isValid_zero

theorem fitsIn_emptyAt_size (text : String) : (emptyAt text.utf8ByteSize).FitsIn text :=
  fitsIn_emptyAt String.Pos.Raw.isValid_rawEndPos

/-- From the start of a span to the end of one that does not end in front of it. -/
theorem FitsIn.through (ha : a.FitsIn text) (hb : b.FitsIn text) (h : a.start ≤ b.stop) :
    (⟨a.start, b.stop⟩ : Span).FitsIn text :=
  ⟨h, hb.stop_le, ha.start_valid, hb.stop_valid⟩

/-- A cover starts with one of its spans, and it ends with one. -/
theorem exists_cover_eq (a b : Span) :
    ∃ x ∈ [a, b], ∃ y ∈ [a, b], a.cover b = ⟨x.start, y.stop⟩ := by
  have hstart : ∃ x ∈ [a, b], min a.start b.start = x.start := by
    rcases Nat.le_total a.start b.start with h | h
    · exact ⟨a, by simp, Nat.min_eq_left h⟩
    · exact ⟨b, by simp, Nat.min_eq_right h⟩
  have hstop : ∃ y ∈ [a, b], max a.stop b.stop = y.stop := by
    rcases Nat.le_total a.stop b.stop with h | h
    · exact ⟨b, by simp, Nat.max_eq_right h⟩
    · exact ⟨a, by simp, Nat.max_eq_left h⟩
  obtain ⟨x, hx, hstart⟩ := hstart
  obtain ⟨y, hy, hstop⟩ := hstop
  exact ⟨x, hx, y, hy, by rw [cover, hstart, hstop]⟩

theorem FitsIn.cover (ha : a.FitsIn text) (hb : b.FitsIn text) : (a.cover b).FitsIn text := by
  have hle : (a.cover b).start ≤ (a.cover b).stop :=
    Nat.le_trans (Nat.min_le_left _ _) (Nat.le_trans ha.start_le_stop (Nat.le_max_left _ _))
  have hfits : ∀ x ∈ [a, b], x.FitsIn text := by simp [ha, hb]
  obtain ⟨x, hx, y, hy, heq⟩ := exists_cover_eq a b
  rw [heq] at hle ⊢
  exact (hfits x hx).through (hfits y hy) hle

end FitsIn

/-! ### What stands at a span -/

section Covers

variable {text : String} {span : Span} {cs : List Char}

/-- The characters stand in the text at the span. -/
def Covers (text : String) (span : Span) (cs : List Char) : Prop :=
  ∃ pre post, text.toList = pre ++ (cs ++ post) ∧
    span = ⟨byteLength pre, byteLength pre + byteLength cs⟩

/-- What a part of a text takes of its bytes ends between characters. -/
theorem isValid_byteLength {pre post : List Char} (h : text.toList = pre ++ post) :
    (⟨byteLength pre⟩ : String.Pos.Raw).IsValid text := by
  refine String.Pos.Raw.isValid_iff_exists_append.2 ⟨String.ofList pre, String.ofList post, ?_, ?_⟩
  · rw [← String.ofList_append, ← h, String.ofList_toList]
  · rw [← utf8ByteSize_ofList]
    rfl

theorem Covers.fitsIn (h : span.Covers text cs) : span.FitsIn text := by
  obtain ⟨pre, post, htext, rfl⟩ := h
  have hstop : (⟨byteLength pre + byteLength cs⟩ : String.Pos.Raw).IsValid text := by
    rw [← byteLength_append]
    exact isValid_byteLength (htext.trans (List.append_assoc pre cs post).symm)
  exact ⟨Nat.le_add_right _ _, hstop.le_utf8ByteSize, isValid_byteLength htext, hstop⟩

/-- **The bytes of a text at a span** are those of the characters that stand there. -/
theorem Covers.extract_eq (h : span.Covers text cs) :
    text.toByteArray.extract span.start span.stop = (String.ofList cs).toByteArray := by
  obtain ⟨pre, post, htext, rfl⟩ := h
  have hbytes : text.toByteArray = (String.ofList pre).toByteArray ++
      ((String.ofList cs).toByteArray ++ (String.ofList post).toByteArray) := by
    rw [← String.toByteArray_append, ← String.toByteArray_append, ← String.ofList_append,
      ← String.ofList_append, ← htext, String.ofList_toList]
  have hsize (ds : List Char) : byteLength ds = (String.ofList ds).toByteArray.size := by
    rw [String.size_toByteArray, utf8ByteSize_ofList]
  calc text.toByteArray.extract (byteLength pre) (byteLength pre + byteLength cs)
      = text.toByteArray.extract (byteLength pre + 0) (byteLength pre + byteLength cs) := rfl
    _ = ((String.ofList cs).toByteArray ++ (String.ofList post).toByteArray).extract 0
          (byteLength cs) := by
        rw [hbytes, ByteArray.extract_append_size_add' (hsize pre)]
    _ = (String.ofList cs).toByteArray := ByteArray.extract_append_eq_left (hsize cs)

end Covers

/-! ### Offsets of 32 bits -/

/-- The span of `length` bytes from `start` on, with both ends counted in 32 bits. There is none
if the end, counted in this way, is in front of the start. -/
def counted? (start length : Nat) : Option Span :=
  let first := UInt32.ofNat start
  let last := first + UInt32.ofNat length
  if first ≤ last then some ⟨first.toNat, last.toNat⟩ else none

/-- Nothing is lost in a text of less than `2 ^ 32` bytes. -/
theorem counted?_eq {start length : Nat} (h : start + length < UInt32.size) :
    counted? start length = some ⟨start, start + length⟩ := by
  have hfirst : (UInt32.ofNat start).toNat = start := UInt32.toNat_ofNat_of_lt' (by omega)
  -- the sum is the offset of the end, so it does not wrap around
  have hlast : (UInt32.ofNat start + UInt32.ofNat length).toNat = start + length := by
    rw [← UInt32.ofNat_add]
    exact UInt32.toNat_ofNat_of_lt' h
  unfold counted?
  simp only [UInt32.le_iff_toNat_le, hfirst, hlast, Nat.le_add_right, if_true]

end Span

end HdlModule

import Mathlib.Data.List.Basic

/-!
# Length-prefixed frames

A stream of symbols is cut into frames by a header of fixed length that determines the length of
the whole frame (`Format`).  `decode` reads frames while they are complete and stops at the first
header whose length is too small to hold the header itself.

* `decode_append`: decoding can be resumed, so the frames of a stream do not depend on how the
  stream is cut into pieces.
* `decode_flatten_append`: a sequence of well formed frames is decoded to itself.
* `decode_prefix`: a part of such a sequence is decoded to the frames that it completes.
-/

namespace Framing

variable {β : Type*}

/-- The length of a frame is a function of its first `header` symbols. -/
structure Format (β : Type*) where
  header : ℕ
  size : List β → ℕ
  header_pos : 0 < header
  size_append : ∀ xs ys, header ≤ xs.length → size (xs ++ ys) = size xs

/-- The frames read, whether decoding stopped at an invalid header, and the symbols left over. -/
structure Decoded (β : Type*) where
  packets : List (List β)
  invalid : Bool
  rest : List β
  deriving DecidableEq, Repr

namespace Format

variable (F : Format β) {bytes xs ys : List β}

/-- The stream starts with a header that announces less than a header. -/
def Invalid (bytes : List β) : Prop := F.header ≤ bytes.length ∧ F.size bytes < F.header

/-- The stream starts with a complete frame. -/
def Complete (bytes : List β) : Prop :=
  F.header ≤ bytes.length ∧ F.header ≤ F.size bytes ∧ F.size bytes ≤ bytes.length

/-- Read at most `fuel` frames. -/
def decodeAux : ℕ → List β → Decoded β
  | 0, bytes => ⟨[], false, bytes⟩
  | fuel + 1, bytes =>
      if bytes.length < F.header then ⟨[], false, bytes⟩
      else if F.size bytes < F.header then ⟨[], true, bytes⟩
      else if bytes.length < F.size bytes then ⟨[], false, bytes⟩
      else
        let next := decodeAux fuel (bytes.drop (F.size bytes))
        ⟨bytes.take (F.size bytes) :: next.packets, next.invalid, next.rest⟩

/-- Read all complete frames; a frame is never empty, so the length of the stream bounds them. -/
def decode (bytes : List β) : Decoded β := F.decodeAux bytes.length bytes

theorem decodeAux_of_le {fuel : ℕ} (h : bytes.length ≤ fuel) :
    F.decodeAux fuel bytes = F.decode bytes := by
  have key : ∀ m n (bytes : List β), bytes.length ≤ m → bytes.length ≤ n →
      F.decodeAux m bytes = F.decodeAux n bytes := by
    intro m
    induction m with
    | zero =>
      intro n bytes hm _
      obtain rfl : bytes = [] := List.length_eq_zero_iff.1 (by omega)
      cases n <;> simp [decodeAux, F.header_pos]
    | succ m ih =>
      intro n bytes hm hn
      have hpos := F.header_pos
      cases n with
      | zero =>
        obtain rfl : bytes = [] := List.length_eq_zero_iff.1 (by omega)
        simp [decodeAux, hpos]
      | succ n =>
        simp only [decodeAux]
        split_ifs
        · rfl
        · rfl
        · rfl
        · rw [ih n (bytes.drop (F.size bytes)) (by rw [List.length_drop]; omega)
            (by rw [List.length_drop]; omega)]
  exact key _ _ _ h (Nat.le_refl _)

variable {F}

theorem Complete.append (h : F.Complete xs) (ys : List β) : F.Complete (xs ++ ys) := by
  obtain ⟨h1, h2, h3⟩ := h
  rw [Complete, F.size_append xs ys h1, List.length_append]
  omega

theorem Invalid.append (h : F.Invalid xs) (ys : List β) : F.Invalid (xs ++ ys) := by
  obtain ⟨h1, h2⟩ := h
  rw [Invalid, F.size_append xs ys h1, List.length_append]
  omega

theorem decode_of_invalid (h : F.Invalid bytes) : F.decode bytes = ⟨[], true, bytes⟩ := by
  obtain ⟨h1, h2⟩ := h
  have hlen : bytes.length ≤ bytes.length + 1 := Nat.le_succ _
  rw [← F.decodeAux_of_le hlen, decodeAux, if_neg (by omega), if_pos h2]

theorem decode_of_wait (hi : ¬ F.Invalid bytes) (hc : ¬ F.Complete bytes) :
    F.decode bytes = ⟨[], false, bytes⟩ := by
  have hlen : bytes.length ≤ bytes.length + 1 := Nat.le_succ _
  rw [← F.decodeAux_of_le hlen, decodeAux]
  split_ifs with h1 h2 h3
  · rfl
  · exact absurd ⟨by omega, h2⟩ hi
  · rfl
  · exact absurd ⟨by omega, by omega, by omega⟩ hc

theorem decode_of_complete (h : F.Complete bytes) :
    F.decode bytes = ⟨bytes.take (F.size bytes) :: (F.decode (bytes.drop (F.size bytes))).packets,
      (F.decode (bytes.drop (F.size bytes))).invalid,
      (F.decode (bytes.drop (F.size bytes))).rest⟩ := by
  obtain ⟨h1, h2, h3⟩ := h
  have hlen : bytes.length ≤ bytes.length + 1 := Nat.le_succ _
  rw [← F.decodeAux_of_le hlen, decodeAux, if_neg (by omega), if_neg (by omega), if_neg (by omega),
    F.decodeAux_of_le (by rw [List.length_drop]; omega)]

/-- Induction along the frames of a stream. -/
theorem decode_induction {motive : List β → Prop}
    (invalid : ∀ bytes, F.Invalid bytes → motive bytes)
    (wait : ∀ bytes, ¬ F.Invalid bytes → ¬ F.Complete bytes → motive bytes)
    (complete : ∀ bytes, F.Complete bytes → motive (bytes.drop (F.size bytes)) → motive bytes)
    (bytes : List β) : motive bytes := by
  have key : ∀ n (bytes : List β), bytes.length ≤ n → motive bytes := by
    intro n
    induction n with
    | zero =>
      intro bytes h
      have hpos := F.header_pos
      exact wait bytes (fun hi => by have := hi.1; omega) (fun hc => by have := hc.1; omega)
    | succ n ih =>
      intro bytes h
      by_cases hi : F.Invalid bytes
      · exact invalid bytes hi
      · by_cases hc : F.Complete bytes
        · have hpos := F.header_pos
          refine complete bytes hc (ih _ ?_)
          rw [List.length_drop]
          have := hc.2.1
          omega
        · exact wait bytes hi hc
  exact key _ bytes (Nat.le_refl _)

/-! ## Resuming -/

/-- Decoding a stream resumes with the symbols left over from its first part. -/
theorem decode_append (xs ys : List β) (valid : (F.decode xs).invalid = false) :
    F.decode (xs ++ ys) =
      ⟨(F.decode xs).packets ++ (F.decode ((F.decode xs).rest ++ ys)).packets,
        (F.decode ((F.decode xs).rest ++ ys)).invalid,
        (F.decode ((F.decode xs).rest ++ ys)).rest⟩ := by
  induction xs using decode_induction (F := F) with
  | invalid xs h => simp [decode_of_invalid h] at valid
  | wait xs hi hc => simp [decode_of_wait hi hc]
  | complete xs h ih =>
    rw [decode_of_complete h] at valid ⊢
    rw [decode_of_complete (h.append ys), F.size_append xs ys h.1,
      List.take_append_of_le_length h.2.2, List.drop_append_of_le_length h.2.2, ih valid]
    rfl

/-- After an invalid header nothing more is decoded. -/
theorem decode_append_of_invalid (xs ys : List β) (invalid : (F.decode xs).invalid = true) :
    F.decode (xs ++ ys) = ⟨(F.decode xs).packets, true, (F.decode xs).rest ++ ys⟩ := by
  induction xs using decode_induction (F := F) with
  | invalid xs h => rw [decode_of_invalid h, decode_of_invalid (h.append ys)]
  | wait xs hi hc => simp [decode_of_wait hi hc] at invalid
  | complete xs h ih =>
    rw [decode_of_complete h] at invalid ⊢
    rw [decode_of_complete (h.append ys), F.size_append xs ys h.1,
      List.take_append_of_le_length h.2.2, List.drop_append_of_le_length h.2.2, ih invalid]

/-- What is left over starts with no complete frame. -/
theorem decode_rest (bytes : List β) (valid : (F.decode bytes).invalid = false) :
    F.decode (F.decode bytes).rest = ⟨[], false, (F.decode bytes).rest⟩ := by
  induction bytes using decode_induction (F := F) with
  | invalid bytes h => simp [decode_of_invalid h] at valid
  | wait bytes hi hc => simp [decode_of_wait hi hc]
  | complete bytes h ih =>
    rw [decode_of_complete h] at valid ⊢
    exact ih valid

/-! ## Well formed frames -/

variable (F)

/-- A symbol sequence that is exactly one frame. -/
def IsFrame (bytes : List β) : Prop := F.header ≤ bytes.length ∧ F.size bytes = bytes.length

variable {F}

theorem IsFrame.complete (h : F.IsFrame bytes) : F.Complete bytes :=
  ⟨h.1, h.2.symm ▸ h.1, Nat.le_of_eq h.2⟩

theorem decode_flatten_append (frames : List (List β)) (wf : ∀ f ∈ frames, F.IsFrame f)
    (tail : List β) :
    F.decode (frames.flatten ++ tail) =
      ⟨frames ++ (F.decode tail).packets, (F.decode tail).invalid, (F.decode tail).rest⟩ := by
  induction frames with
  | nil => rfl
  | cons f frames ih =>
    have hf : F.IsFrame f := wf f List.mem_cons_self
    rw [List.flatten_cons, List.append_assoc, decode_of_complete (hf.complete.append _),
      F.size_append f _ hf.1, hf.2, List.take_left, List.drop_left,
      ih fun g hg => wf g (List.mem_cons_of_mem f hg)]
    rfl

theorem IsFrame.decode_append {f : List β} (hf : F.IsFrame f) (tail : List β) :
    F.decode (f ++ tail) =
      ⟨f :: (F.decode tail).packets, (F.decode tail).invalid, (F.decode tail).rest⟩ := by
  have hone := decode_flatten_append [f] (by simpa using hf) tail
  rwa [List.flatten_singleton] at hone

/-- A piece of a frame is waited for. -/
theorem decode_of_lt {f zs : List β} (hf : F.IsFrame f) (hsplit : f = xs ++ zs)
    (hlt : xs.length < f.length) : F.decode xs = ⟨[], false, xs⟩ := by
  have hsize : F.header ≤ xs.length → F.size xs = f.length := by
    intro hle
    rw [← hf.2, hsplit, F.size_append xs zs hle]
  refine decode_of_wait (fun hi => ?_) fun hc => ?_
  · have hfit := hi.2
    rw [hsize hi.1] at hfit
    exact absurd hf.1 (by omega)
  · have hfit := hc.2.2
    rw [hsize hc.1] at hfit
    omega

/-- The first part of a stream of frames is decoded to the frames that are complete in it, and the
remaining frames begin with what is left over. -/
theorem decode_prefix (frames : List (List β)) (wf : ∀ f ∈ frames, F.IsFrame f)
    (h : frames.flatten = xs ++ ys) :
    ∃ todo, frames = (F.decode xs).packets ++ todo ∧ (F.decode xs).invalid = false ∧
      todo.flatten = (F.decode xs).rest ++ ys := by
  induction frames generalizing xs with
  | nil =>
    obtain ⟨rfl, rfl⟩ := List.append_eq_nil_iff.1 h.symm
    exact ⟨[], rfl, rfl, rfl⟩
  | cons f frames ih =>
    have hf : F.IsFrame f := wf f List.mem_cons_self
    rw [List.flatten_cons] at h
    rcases List.append_eq_append_iff.1 h with ⟨zs, hxs, hrest⟩ | ⟨zs, hsplit, hys⟩
    · -- The frame is complete in the first part.
      obtain ⟨todo, hframes, hvalid, htodo⟩ :=
        ih (fun g hg => wf g (List.mem_cons_of_mem f hg)) hrest
      rw [hxs, hf.decode_append]
      exact ⟨todo, by rw [hframes]; rfl, hvalid, htodo⟩
    · rcases zs with _ | ⟨z, zs⟩
      · -- The first part ends with the frame.
        rw [List.append_nil] at hsplit
        subst hsplit
        have hdecode := hf.decode_append []
        rw [List.append_nil] at hdecode
        rw [hdecode]
        exact ⟨frames, rfl, rfl, hys.symm⟩
      · have hlt : xs.length < f.length := by
          rw [hsplit, List.length_append]
          simp
        rw [decode_of_lt hf hsplit hlt]
        refine ⟨f :: frames, rfl, rfl, ?_⟩
        rw [List.flatten_cons, hsplit, hys, List.append_assoc]

end Format

end Framing

import Shadow6.Library.Bytes

/-!
# `Library.Framing` — length-prefixed frames on a byte stream

A connection delivers a stream in pieces, cut anywhere. `readFull` fills a buffer from the pieces that have arrived or
waits for more, so what it returns depends on the stream only (`readFull_some`, `readFull_none`). `readFrame` reads a
four-byte length and then the body, if the length is admitted: of a stream that begins with a frame it returns that
frame, and it waits only while the frame is not complete.
-/

namespace Library

open List

/-! ## Reading from pieces -/

/-- Fill a buffer of the given size from the pieces that have arrived; `none` while there are too few bytes. -/
def readFull : Nat → List Bytes → Option (Bytes × List Bytes)
  | 0, pieces => some ([], pieces)
  | _ + 1, [] => none
  | n + 1, piece :: pieces =>
    if n + 1 < piece.length then some (piece.take (n + 1), piece.drop (n + 1) :: pieces)
    else (readFull (n + 1 - piece.length) pieces).map fun r => (piece ++ r.1, r.2)

/-- What is read is the front of the stream, and the rest stays. -/
theorem readFull_some {n : Nat} {pcs : List Bytes} {bs : Bytes} {rs : List Bytes}
    (h : readFull n pcs = some (bs, rs)) : bs.length = n ∧ pcs.flatten = bs ++ rs.flatten := by
  induction pcs generalizing n bs with
  | nil =>
    cases n with
    | zero => cases h; exact ⟨rfl, rfl⟩
    | succ n => cases h
  | cons p pcs ih =>
    cases n with
    | zero => cases h; exact ⟨rfl, rfl⟩
    | succ n =>
      rw [readFull] at h
      split_ifs at h with hlt
      · cases h
        refine ⟨length_take_of_le hlt.le, ?_⟩
        rw [flatten_cons, flatten_cons, ← append_assoc, take_append_drop]
      obtain ⟨r, hr, heq⟩ := Option.map_eq_some_iff.mp h
      cases heq
      obtain ⟨hlen, hflat⟩ := ih hr
      constructor
      · rw [length_append, hlen]
        omega
      · rw [flatten_cons, hflat, append_assoc]

theorem readFull_none {n : Nat} {pcs : List Bytes} (h : readFull n pcs = none) : pcs.flatten.length < n := by
  induction pcs generalizing n with
  | nil =>
    cases n with
    | zero => cases h
    | succ n => exact Nat.succ_pos n
  | cons p pcs ih =>
    cases n with
    | zero => cases h
    | succ n =>
      rw [readFull] at h
      split_ifs at h with hlt
      have hsh := ih (Option.map_eq_none_iff.mp h)
      rw [flatten_cons, length_append]
      omega

/-! ## Frames -/

/-- A body behind its length. -/
def frame (body : Bytes) : Bytes := toBE 4 body.length ++ body

theorem length_frame (body : Bytes) : (frame body).length = body.length + 4 := by
  rw [frame, length_append, length_toBE, add_comm]

/-- What a reader of frames finds: an incomplete frame, a length that is not admitted, or a body. -/
inductive FrameRead where
  | waits
  | refused (rest : List Bytes)
  | got (body : Bytes) (rest : List Bytes)

/-- Read the length, and the body if the length is admitted. -/
def readFrame (admits : Nat → Bool) (pieces : List Bytes) : FrameRead :=
  match readFull 4 pieces with
  | none => .waits
  | some (header, afterHeader) =>
    if admits (ofBE header) then
      match readFull (ofBE header) afterHeader with
      | none => .waits
      | some (body, rest) => .got body rest
    else .refused afterHeader

section

variable {adm : Nat → Bool} {body l more : Bytes} {ps : List Bytes}

/-- The header of a stream that begins with a frame. -/
theorem readFull_header (hlt : body.length < 256 ^ 4) (hstr : ps.flatten ++ l = frame body ++ more)
    {header : Bytes} {r : List Bytes} (h : readFull 4 ps = some (header, r)) :
    ofBE header = body.length ∧ r.flatten ++ l = body ++ more := by
  obtain ⟨hlen, hflat⟩ := readFull_some h
  rw [hflat, frame, append_assoc, append_assoc] at hstr
  obtain ⟨hhdr, hrs⟩ := append_inj hstr (by rw [hlen, length_toBE])
  rw [hhdr, ofBE_toBE_of_lt hlt]
  exact ⟨rfl, hrs⟩

/-- **Frames are read back.** A reader of a stream that begins with an admitted frame waits for its end or
    returns its body and leaves what follows. -/
theorem readFrame_frame (hlt : body.length < 256 ^ 4) (hadm : adm body.length = true)
    (hstr : ps.flatten ++ l = frame body ++ more) :
    (readFrame adm ps = .waits ∧ ps.flatten.length < (frame body).length) ∨
      ∃ rest, readFrame adm ps = .got body rest ∧ rest.flatten ++ l = more := by
  unfold readFrame
  cases hhdr : readFull 4 ps with
  | none =>
    have hsh := readFull_none hhdr
    refine .inl ⟨rfl, ?_⟩
    rw [length_frame]
    omega
  | some r =>
    obtain ⟨header, ah⟩ := r
    obtain ⟨hvl, haft⟩ := readFull_header hlt hstr hhdr
    obtain ⟨hlen, hflat⟩ := readFull_some hhdr
    dsimp only
    rw [hvl, if_pos hadm]
    cases hbody : readFull body.length ah with
    | none =>
      have hsh := readFull_none hbody
      refine .inl ⟨rfl, ?_⟩
      rw [hflat, length_append, hlen, length_frame]
      omega
    | some r =>
      obtain ⟨body', rest⟩ := r
      obtain ⟨hlen', hflat'⟩ := readFull_some hbody
      rw [hflat', append_assoc] at haft
      obtain ⟨hbody', hrs⟩ := append_inj haft hlen'
      exact .inr ⟨rest, by rw [hbody'], hrs⟩

end

theorem readFrame_empty {admits : Nat → Bool} {pcs : List Bytes} (h : pcs.flatten = []) :
    readFrame admits pcs = .waits := by
  unfold readFrame
  cases hhdr : readFull 4 pcs with
  | none => rfl
  | some r =>
    obtain ⟨hlen, hflat⟩ := readFull_some hhdr
    rw [h, eq_comm, append_eq_nil_iff] at hflat
    rw [hflat.1] at hlen
    cases hlen

/-! ## Lists of frames -/

/-- The frames of a list of bodies, one after the other. -/
def frames (bodies : List Bytes) : Bytes := bodies.flatMap frame

@[simp] theorem frames_nil : frames [] = [] := rfl

@[simp] theorem frames_cons (b : Bytes) (bs : List Bytes) : frames (b :: bs) = frame b ++ frames bs := rfl

theorem frame_append_inj {a b s t : Bytes} (ha : a.length < 256 ^ 4) (hb : b.length < 256 ^ 4)
    (h : frame a ++ s = frame b ++ t) : a = b ∧ s = t := by
  rw [frame, frame, append_assoc, append_assoc] at h
  obtain ⟨hhdr, hrs⟩ := append_inj h (by rw [length_toBE, length_toBE])
  have hlen : a.length = b.length := by
    rw [← ofBE_toBE_of_lt ha, hhdr, ofBE_toBE_of_lt hb]
  exact append_inj hrs hlen

theorem frames_inj {fs gs : List Bytes} (hfs : ∀ f ∈ fs, f.length < 256 ^ 4) (hgs : ∀ g ∈ gs, g.length < 256 ^ 4)
    (h : frames fs = frames gs) : fs = gs := by
  induction fs generalizing gs with
  | nil =>
    cases gs with
    | nil => rfl
    | cons g gs =>
      have hlen := congrArg length h
      simp [length_frame] at hlen
      omega
  | cons f fs ih =>
    cases gs with
    | nil =>
      have hlen := congrArg length h
      simp [length_frame] at hlen
    | cons g gs =>
      obtain ⟨rfl, hrs⟩ := frame_append_inj (hfs f mem_cons_self) (hgs g mem_cons_self) h
      rw [ih (fun f' hf' => hfs f' (mem_cons_of_mem _ hf')) (fun g' hg' => hgs g' (mem_cons_of_mem _ hg')) hrs]

/-- **Heads that are not the beginning of each other** are told apart, whatever frames follow. -/
theorem headed_frames_inj {heads : List Bytes} (hfree : ∀ a ∈ heads, ∀ b ∈ heads, a <+: b → a = b) {a b : Bytes}
    (ha : a ∈ heads) (hb : b ∈ heads) {fs gs : List Bytes} (hfs : ∀ f ∈ fs, f.length < 256 ^ 4)
    (hgs : ∀ g ∈ gs, g.length < 256 ^ 4) (h : a ++ frames fs = b ++ frames gs) : a = b ∧ fs = gs := by
  have hhead : a = b := by
    rcases append_eq_append_iff.mp h with ⟨more, hmore, -⟩ | ⟨more, hmore, -⟩
    · exact hfree a ha b hb ⟨more, hmore.symm⟩
    · exact (hfree b hb a ha ⟨more, hmore.symm⟩).symm
  rw [hhead] at h
  exact ⟨hhead, frames_inj hfs hgs (append_cancel_left h)⟩

end Library

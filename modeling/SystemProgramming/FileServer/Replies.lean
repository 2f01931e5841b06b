import SystemProgramming.FileServer.Client

/-! What the client makes of the replies that a server sends. -/

namespace SystemProgramming.FileServer

open Foundations

variable {reads : List Fragment} {stale rest content : List UInt8} {size : Nat}

/-- Eight bytes that came declare the size that they stand for. -/
theorem declaredSize_of_length {got : List UInt8} (whole : got.length = sizeBytes) :
    declaredSize stale got = ofLittleEndian got := by
  -- No byte of the stack is used when all eight bytes came.
  rw [declaredSize, List.take_append_of_le_length (Nat.le_of_eq whole.symm),
    List.take_of_length_le (Nat.le_of_eq whole)]

/-- A size that is sent is the one that is declared. -/
theorem declaredSize_littleEndian (small : size < sizeRange) :
    declaredSize stale ((littleEndian sizeBytes size ++ rest).take sizeBytes) = size := by
  -- The eight bytes in front are those of the size.
  have front : (littleEndian sizeBytes size ++ rest).take sizeBytes =
      littleEndian sizeBytes size :=
    List.take_left' length_littleEndian
  rw [front, declaredSize_of_length length_littleEndian, ofLittleEndian_littleEndian]
  exact Nat.mod_eq_of_lt small

/-- What follows a size. -/
theorem drop_littleEndian :
    (littleEndian sizeBytes size ++ rest).drop sizeBytes = rest :=
  List.drop_left' length_littleEndian

/-- As many bytes as were announced are a complete transfer. -/
theorem reportOf_self : reportOf size size = .complete := by
  rw [reportOf, if_neg (Nat.lt_irrefl size), if_neg (Nat.lt_irrefl size)]

/-- The client finds a good reply and goes on with what follows it. -/
theorem handleResponse_ok (handle : List Fragment → List UInt8 → Option Fetched)
    (unbroken : Unbroken reads) :
    ∃ later, Unbroken later ∧
      handleResponse handle reads (okReply ++ rest) = handle later rest := by
  -- The reply has three bytes, so the rest is left for the handler.
  obtain ⟨later, fine, read⟩ := @readAllFromSocket_eq reads (okReply ++ rest) 3 unbroken
  have front : (okReply ++ rest).take 3 = okReply := rfl
  have back : (okReply ++ rest).drop 3 = rest := rfl
  refine ⟨later, fine, ?_⟩
  simp only [handleResponse, read, front, back]
  exact if_pos ⟨nofun, trivial⟩

/-- The client prints exactly the bytes of a listing that follow their number. -/
theorem handleList_eq (unbroken : Unbroken reads) (small : content.length + 5 < sizeRange) :
    handleList stale reads (littleEndian sizeBytes content.length ++ content) =
      some ⟨content, .complete⟩ := by
  -- First the eight bytes of the size are read, then the names in one call.
  obtain ⟨later, fine, size⟩ := @readAllFromSocket_eq reads
    (littleEndian sizeBytes content.length ++ content) sizeBytes unbroken
  have declared : declaredSize stale
      ((littleEndian sizeBytes content.length ++ content).take sizeBytes) = content.length :=
    declaredSize_littleEndian (by omega)
  obtain ⟨last, -, names⟩ := @readAllFromSocket_eq later content
    ((content.length + 5) % sizeRange - 1) fine
  -- Four more bytes are asked for than come.
  have whole : content.take ((content.length + 5) % sizeRange - 1) = content := by
    rw [Nat.mod_eq_of_lt small]
    exact List.take_of_length_le (by omega)
  simp only [handleList, size, drop_littleEndian, declared, names, whole, reportOf_self]

end SystemProgramming.FileServer

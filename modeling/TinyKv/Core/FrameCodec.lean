import TinyKv.Core.Bytes
import TinyKv.Foundation.StreamParser

/-!
# The frame codec

A frame is a four-byte big-endian payload length followed by the payload. `Decode`
works on the connection's buffer in place: the frames taken before it throws are
gone from the buffer and are not returned.
-/

namespace TinyKv.FrameCodec

open Foundation

/-- `MAX_FRAME_SIZE`. -/
def maxFrameSize : Nat := 1024 * 1024

/-- `HEADER_SIZE`. -/
def headerSize : Nat := 4

/-- The exceptions of the codec, and the write beyond a buffer no exception reports. -/
inductive CodecError where
  | payloadTooLarge
  | frameTooLarge
  | nullInput
  | outOfBounds
deriving DecidableEq, Repr

/-- The header bytes that `htonl` leaves in memory. -/
def htonl (n : Nat) : Bytes :=
  [UInt8.ofNat (n / 2 ^ 24), UInt8.ofNat (n / 2 ^ 16), UInt8.ofNat (n / 2 ^ 8), UInt8.ofNat n]

/-- The value `ntohl` reads from the header bytes. -/
def ntohl (header : Bytes) : Nat := header.foldl (fun n byte => n * 256 + byte.toNat) 0

/-- `memcpy` into a buffer of known size at an offset. -/
def memcpy (frame : Bytes) (offset : Nat) (source : Bytes) : Except CodecError Bytes :=
  if offset + source.length ≤ frame.length then
    .ok (frame.take offset ++ source ++ frame.drop (offset + source.length))
  else
    .error .outOfBounds

/-- `Encode`. The length is narrowed to 32 bits before it is checked. -/
def encode (payload : Bytes) : Except CodecError Bytes := do
  let payloadLen := payload.length % 2 ^ 32
  if payloadLen > maxFrameSize then
    .error .payloadTooLarge
  else
    let frame ← memcpy (List.replicate (headerSize + payloadLen) 0) 0 (htonl payloadLen)
    if payload ≠ [] then
      memcpy frame headerSize payload
    else
      pure frame

/-- The loop of `Decode`; `fuel` bounds the iterations and the buffer comes back also
when the loop throws. -/
def decodeLoop : Nat → Bytes → List Bytes → Bytes × Except CodecError (List Bytes)
  | 0, buffer, frames => (buffer, .ok frames)
  | fuel + 1, buffer, frames =>
      if buffer.length ≥ headerSize then
        let payloadLen := ntohl (buffer.take headerSize)
        if payloadLen > maxFrameSize then
          (buffer, .error .frameTooLarge)
        else
          let totalSize := headerSize + payloadLen
          if buffer.length < totalSize then
            (buffer, .ok frames)
          else
            decodeLoop fuel (buffer.drop totalSize)
              (frames ++ [(buffer.drop headerSize).take payloadLen])
      else
        (buffer, .ok frames)

/-- `Decode(buffer)`. Every iteration but the last erases a frame, so the length of the
buffer is fuel enough. -/
def decode (buffer : Bytes) : Bytes × Except CodecError (List Bytes) :=
  decodeLoop buffer.length buffer []

/-- `Decode(buffer, data, size)`; `none` is a null `data`. -/
def decodeInput (buffer : Bytes) (data : Option Bytes) (size : Nat) :
    Bytes × Except CodecError (List Bytes) :=
  match data with
  | none => if size > 0 then (buffer, .error .nullInput) else decode buffer
  | some bytes => if size > 0 then decode (buffer ++ bytes.take size) else decode buffer

/-- Successive calls of `Decode` on one buffer, collecting the returned lists. -/
def feed : Bytes → List Bytes → Bytes × Except CodecError (List (List Bytes))
  | buffer, [] => (buffer, .ok [])
  | buffer, chunk :: rest =>
      match decodeInput buffer (some chunk) chunk.length with
      | (buffer, .error e) => (buffer, .error e)
      | (buffer, .ok frames) =>
          match feed buffer rest with
          | (buffer, .error e) => (buffer, .error e)
          | (buffer, .ok lists) => (buffer, .ok (frames :: lists))

/-! ### Headers -/

@[simp] theorem length_htonl (n : Nat) : (htonl n).length = headerSize := rfl

theorem ntohl_htonl {n : Nat} (h : n < 2 ^ 32) : ntohl (htonl n) = n := by
  simp only [ntohl, htonl, List.foldl_cons, List.foldl_nil, UInt8.toNat_ofNat']
  omega

theorem htonl_ntohl {header : Bytes} (h : header.length = headerSize) :
    htonl (ntohl header) = header := by
  obtain ⟨a, b, c, d, rfl⟩ : ∃ a b c d, header = [a, b, c, d] := by
    match header, h with
    | [a, b, c, d], _ => exact ⟨a, b, c, d, rfl⟩
  have ha := a.toNat_lt
  have hb := b.toNat_lt
  have hc := c.toNat_lt
  have hd := d.toNat_lt
  simp only [ntohl, htonl, List.foldl_cons, List.foldl_nil, List.cons.injEq, and_true,
    ← UInt8.toNat_inj, UInt8.toNat_ofNat']
  omega

/-! ### Frames -/

/-- The bytes of a frame. -/
def frameOf (payload : Bytes) : Bytes := htonl payload.length ++ payload

@[simp] theorem length_frameOf (payload : Bytes) :
    (frameOf payload).length = headerSize + payload.length := by
  simp [frameOf]

theorem memcpy_over (before old after : Bytes) {source : Bytes}
    (h : old.length = source.length) :
    memcpy (before ++ old ++ after) before.length source = .ok (before ++ source ++ after) := by
  have hfits : before.length + source.length ≤ (before ++ old ++ after).length := by
    simp only [List.length_append]
    omega
  rw [memcpy, if_pos hfits, ← h, ← List.drop_drop]
  simp

theorem memcpy_header (n : Nat) :
    memcpy (List.replicate (headerSize + n) 0) 0 (htonl n) =
      .ok (htonl n ++ List.replicate n 0) := by
  rw [List.replicate_add]
  exact memcpy_over [] (List.replicate headerSize 0) _ (by simp)

theorem encode_eq {payload : Bytes} (h : payload.length ≤ maxFrameSize) :
    encode payload = .ok (frameOf payload) := by
  have hmod : payload.length % 2 ^ 32 = payload.length := by
    apply Nat.mod_eq_of_lt
    simp only [maxFrameSize] at h
    omega
  have hpayload : memcpy (htonl payload.length ++ List.replicate payload.length 0) headerSize
      payload = .ok (frameOf payload) := by
    simpa [frameOf] using
      memcpy_over (htonl payload.length) (List.replicate payload.length 0) [] (by simp)
  simp only [encode, hmod, gt_iff_lt, if_neg (Nat.not_lt.mpr h), memcpy_header]
  change (if payload ≠ [] then memcpy _ _ _ else _) = _
  by_cases hnil : payload = []
  · subst hnil
    rfl
  · rw [if_pos hnil]
    exact hpayload

theorem encode_of_refused {payload : Bytes} (h : maxFrameSize < payload.length % 2 ^ 32) :
    encode payload = .error .payloadTooLarge := by
  simp only [encode, if_pos h]

/-- A length that is small only after the narrowing leaves the frame too short for the
payload that is copied into it. -/
theorem encode_of_narrowed {payload : Bytes} (h : maxFrameSize < payload.length)
    (hmod : payload.length % 2 ^ 32 ≤ maxFrameSize) : encode payload = .error .outOfBounds := by
  have hnil : payload ≠ [] := by
    rintro rfl
    simp [maxFrameSize] at h
  simp only [encode, if_neg (Nat.not_lt.mpr hmod), memcpy_header]
  change (if payload ≠ [] then memcpy _ _ _ else _) = _
  rw [if_pos hnil, memcpy, if_neg]
  simp only [List.length_append, length_htonl, List.length_replicate]
  omega

/-- Nothing longer is encoded: either the narrowed length is refused, or the payload does
not fit the frame allocated for it. -/
theorem encode_of_too_large {payload : Bytes} (h : maxFrameSize < payload.length) :
    ∃ e, encode payload = .error e := by
  by_cases hmod : maxFrameSize < payload.length % 2 ^ 32
  · exact ⟨.payloadTooLarge, encode_of_refused hmod⟩
  · exact ⟨.outOfBounds, encode_of_narrowed h (Nat.not_lt.mp hmod)⟩

/-- What `Encode` is to do with a payload: to throw exactly when it is longer than the limit,
to return its frame otherwise, and to copy no more than it has allocated. -/
structure EnforcesLimit (payload : Bytes) : Prop where
  throws : encode payload = .error .payloadTooLarge ↔ maxFrameSize < payload.length
  returns : payload.length ≤ maxFrameSize → encode payload = .ok (frameOf payload)
  fits : encode payload ≠ .error .outOfBounds

/-- The limit is enforced for all payloads but those whose length the narrowing takes below
the limit. -/
theorem enforcesLimit_iff (payload : Bytes) :
    EnforcesLimit payload ↔
      payload.length ≤ maxFrameSize ∨ maxFrameSize < payload.length % 2 ^ 32 := by
  constructor
  · intro h
    by_contra hnarrowed
    obtain ⟨hlong, hmod⟩ := not_or.mp hnarrowed
    exact h.fits (encode_of_narrowed (Nat.not_le.mp hlong) (Nat.not_lt.mp hmod))
  · rintro (hshort | hrefused)
    · have hencode := encode_eq hshort
      constructor
      · rw [hencode]
        exact ⟨nofun, fun hlong => absurd hshort (Nat.not_le.mpr hlong)⟩
      · intro _
        exact hencode
      · rw [hencode]
        nofun
    · have hencode := encode_of_refused hrefused
      have hlong : maxFrameSize < payload.length :=
        Nat.lt_of_lt_of_le hrefused (Nat.mod_le ..)
      constructor
      · exact iff_of_true hencode hlong
      · intro hshort
        exact absurd hlong (Nat.not_lt.mpr hshort)
      · rw [hencode]
        nofun

/-- A payload of four gibibytes is not refused, and overruns the frame of four bytes. -/
theorem not_enforcesLimit_four_gibibytes :
    ¬ EnforcesLimit (List.replicate (2 ^ 32) (UInt8.ofNat 120)) := by
  intro h
  apply h.fits
  apply encode_of_narrowed
  · rw [List.length_replicate]
    decide
  · rw [List.length_replicate]
    decide

theorem encode_mapM {payloads : List Bytes} (h : ∀ p ∈ payloads, p.length ≤ maxFrameSize) :
    payloads.mapM encode = .ok (payloads.map frameOf) := by
  induction payloads with
  | nil => rfl
  | cons p rest ih =>
      rw [List.mapM_cons, encode_eq (h p (List.mem_cons_self ..)),
        ih fun q hq => h q (List.mem_cons_of_mem p hq)]
      rfl

/-! ### The parser behind `Decode` -/

/-- What one iteration of the loop of `Decode` finds at the front of the buffer. -/
def nextFrame (buffer : Bytes) : Next UInt8 Bytes :=
  if buffer.length < headerSize then
    .more
  else if maxFrameSize < ntohl (buffer.take headerSize) then
    .bad
  else if buffer.length < headerSize + ntohl (buffer.take headerSize) then
    .more
  else
    .item ((buffer.drop headerSize).take (ntohl (buffer.take headerSize)))
      (buffer.drop (headerSize + ntohl (buffer.take headerSize)))

theorem nextFrame_item {buffer payload rest : Bytes}
    (h : nextFrame buffer = .item payload rest) :
    buffer = frameOf payload ++ rest ∧ payload.length ≤ maxFrameSize := by
  simp only [nextFrame] at h
  split at h
  · cases h
  split at h
  · cases h
  split at h
  · cases h
  next hheader hmax hfull =>
    simp only [Next.item.injEq] at h
    obtain ⟨rfl, rfl⟩ := h
    have hlen : ((buffer.drop headerSize).take (ntohl (buffer.take headerSize))).length =
        ntohl (buffer.take headerSize) := by
      simp only [List.length_take, List.length_drop]
      omega
    refine ⟨?_, by omega⟩
    have htake : (buffer.take headerSize).length = headerSize := by
      simp only [List.length_take]
      omega
    rw [frameOf, hlen, htonl_ntohl htake, ← List.drop_drop, List.append_assoc,
      List.take_append_drop, List.take_append_drop]

theorem take_frameOf (payload rest : Bytes) :
    (frameOf payload ++ rest).take headerSize = htonl payload.length := by
  rw [frameOf, List.append_assoc]
  exact List.take_left' (length_htonl _)

theorem drop_frameOf (payload rest : Bytes) :
    (frameOf payload ++ rest).drop headerSize = payload ++ rest := by
  rw [frameOf, List.append_assoc]
  exact List.drop_left' (length_htonl _)

theorem nextFrame_frameOf {payload : Bytes} (h : payload.length ≤ maxFrameSize)
    (rest : Bytes) : nextFrame (frameOf payload ++ rest) = .item payload rest := by
  have hval : ntohl ((frameOf payload ++ rest).take headerSize) = payload.length := by
    rw [take_frameOf, ntohl_htonl]
    simp only [maxFrameSize] at h
    omega
  have hlen : (frameOf payload ++ rest).length =
      headerSize + payload.length + rest.length := by simp
  simp only [nextFrame, hval, hlen]
  rw [if_neg (by omega), if_neg (by omega), if_neg (by omega), ← List.drop_drop, drop_frameOf]
  simp

theorem nextFrame_bad {buffer : Bytes} :
    nextFrame buffer = .bad ↔
      headerSize ≤ buffer.length ∧ maxFrameSize < ntohl (buffer.take headerSize) := by
  simp only [nextFrame]
  split
  · simp
    omega
  split
  · simp
    omega
  split <;> simp <;> omega

theorem nextFrame_more {buffer : Bytes} :
    nextFrame buffer = .more ↔ buffer.length < headerSize ∨
      (ntohl (buffer.take headerSize) ≤ maxFrameSize ∧
        buffer.length < headerSize + ntohl (buffer.take headerSize)) := by
  simp only [nextFrame]
  split
  · simp
    omega
  split
  · simp
    omega
  split <;> simp <;> omega

/-- The frame parser. -/
def frameParser : StreamParser UInt8 Bytes where
  next := nextFrame
  consumes h := by
    rw [(nextFrame_item h).1, List.length_append, length_frameOf, headerSize]
    omega
  item_append h ys := by
    obtain ⟨rfl, hle⟩ := nextFrame_item h
    rw [List.append_assoc]
    exact nextFrame_frameOf hle _
  bad_append h ys := by
    rw [nextFrame_bad] at h ⊢
    refine ⟨by simp; omega, ?_⟩
    rw [List.take_append_of_le_length h.1]
    exact h.2

theorem next_frameOf {payload : Bytes} (h : payload.length ≤ maxFrameSize) (rest : Bytes) :
    frameParser.next (frameOf payload ++ rest) = .item payload rest :=
  nextFrame_frameOf h rest

theorem next_nil : frameParser.next [] = .more := rfl

theorem drain_items_le (buffer : Bytes) :
    ∀ p ∈ (frameParser.drain buffer).items, p.length ≤ maxFrameSize := by
  induction buffer using frameParser.drain_induction with
  | more xs h => simp [frameParser.drain_more h]
  | bad xs h => simp [frameParser.drain_bad h]
  | item xs b rest h ih =>
      intro p hp
      rw [frameParser.drain_item h] at hp
      obtain rfl | hp := List.mem_cons.mp hp
      · exact (nextFrame_item h).2
      · exact ih p hp

theorem drain_rebuild (stream : Bytes) :
    stream = (frameParser.drain stream).items.flatMap frameOf ++ (frameParser.drain stream).rest :=
  frameParser.drain_rebuild (fun h => (nextFrame_item h).1) stream

/-- A frame that starts in an incomplete rest and ends in it would not be incomplete. -/
theorem length_frameOf_of_next_more {rest more payload tail : Bytes}
    (hmore : frameParser.next rest = .more) (hfits : payload.length ≤ maxFrameSize)
    (heq : rest ++ more = frameOf payload ++ tail) :
    rest.length < (frameOf payload).length := by
  by_contra hle
  have hprefix : frameOf payload <+: rest :=
    List.prefix_of_prefix_length_le (heq.symm ▸ List.prefix_append (frameOf payload) tail)
      (List.prefix_append rest more) (Nat.le_of_not_lt hle)
  obtain ⟨left, rfl⟩ := hprefix
  rw [next_frameOf hfits] at hmore
  cases hmore

theorem length_lt_of_next_more {buffer : Bytes} (h : frameParser.next buffer = .more) :
    buffer.length < headerSize + maxFrameSize := by
  rcases nextFrame_more.mp h with h | h <;> omega

/-- The frames completed by the bytes of one result: all but the first lie inside it. -/
theorem length_items_le {buffer bytes : Bytes} (h : frameParser.next buffer = .more) :
    headerSize * (frameParser.drain (buffer ++ bytes)).items.length ≤
      bytes.length + (headerSize - 1) := by
  have hstream := drain_rebuild (buffer ++ bytes)
  have hsizes := drain_items_le (buffer ++ bytes)
  cases hitems : (frameParser.drain (buffer ++ bytes)).items with
  | nil => simp
  | cons payload items =>
      rw [hitems] at hstream hsizes
      rw [List.flatMap_cons, List.append_assoc] at hstream
      have hfirst := length_frameOf_of_next_more h (hsizes payload (List.mem_cons_self ..)) hstream
      have hrest : headerSize * items.length ≤ (items.flatMap frameOf).length := by
        clear hitems hstream hsizes
        induction items with
        | nil => simp
        | cons p rest ih =>
            simp only [List.length_cons, List.flatMap_cons, List.length_append, length_frameOf]
            rw [Nat.mul_succ]
            omega
      have hlen := congrArg List.length hstream
      simp only [List.length_append] at hlen
      rw [List.length_cons, Nat.mul_succ]
      simp only [headerSize] at hrest ⊢
      omega

/-- The result of `Decode` read off a drained buffer. -/
def decodeResult (frames : List Bytes) (d : Drained UInt8 Bytes) :
    Bytes × Except CodecError (List Bytes) :=
  (d.rest, if d.rejected then .error .frameTooLarge else .ok (frames ++ d.items))

theorem decodeLoop_eq (fuel : Nat) (buffer : Bytes) (frames : List Bytes)
    (h : buffer.length ≤ fuel) :
    decodeLoop fuel buffer frames = decodeResult frames (frameParser.drain buffer) := by
  induction fuel generalizing buffer frames with
  | zero =>
      have hmore : frameParser.next buffer = .more := nextFrame_more.mpr (.inl (by
        simp only [headerSize]
        omega))
      simp [decodeLoop, decodeResult, frameParser.drain_more hmore]
  | succ fuel ih =>
      by_cases hheader : buffer.length < headerSize
      · have hmore : frameParser.next buffer = .more := nextFrame_more.mpr (.inl hheader)
        simp [decodeLoop, decodeResult, frameParser.drain_more hmore, Nat.not_le.mpr hheader]
      by_cases hmax : maxFrameSize < ntohl (buffer.take headerSize)
      · have hbad : frameParser.next buffer = .bad :=
          nextFrame_bad.mpr ⟨Nat.not_lt.mp hheader, hmax⟩
        simp [decodeLoop, decodeResult, frameParser.drain_bad hbad, Nat.not_lt.mp hheader, hmax]
      by_cases hfull : buffer.length < headerSize + ntohl (buffer.take headerSize)
      · have hmore : frameParser.next buffer = .more :=
          nextFrame_more.mpr (.inr ⟨Nat.not_lt.mp hmax, hfull⟩)
        simp [decodeLoop, decodeResult, frameParser.drain_more hmore, Nat.not_lt.mp hheader, hmax,
          hfull]
      · have hitem : frameParser.next buffer =
            .item ((buffer.drop headerSize).take (ntohl (buffer.take headerSize)))
              (buffer.drop (headerSize + ntohl (buffer.take headerSize))) := by
          simp [frameParser, nextFrame, hheader, hmax, hfull]
        have hfuel : (buffer.drop
            (headerSize + ntohl (buffer.take headerSize))).length ≤ fuel := by
          simp only [List.length_drop, headerSize] at hheader ⊢
          omega
        rw [decodeLoop, if_pos (Nat.not_lt.mp hheader)]
        simp only [gt_iff_lt, if_neg hmax, if_neg hfull]
        rw [ih _ _ hfuel, frameParser.drain_item hitem]
        simp [decodeResult]

theorem decode_eq (buffer : Bytes) :
    decode buffer = decodeResult [] (frameParser.drain buffer) :=
  decodeLoop_eq _ buffer [] (Nat.le_refl _)

theorem decodeInput_eq (buffer data : Bytes) :
    decodeInput buffer (some data) data.length =
      decodeResult [] (frameParser.drain (buffer ++ data)) := by
  cases data with
  | nil => simp [decodeInput, decode_eq]
  | cons byte rest => simp [decodeInput, decode_eq]

/-- Feeding chunks yields the items of the whole stream, as long as no header in it is
rejected; by induction on the chunks from a buffer without a complete frame. -/
theorem feed_eq (chunks : List Bytes) {buffer : Bytes}
    (hbuffer : frameParser.next buffer = .more)
    (hok : (frameParser.drain (buffer ++ chunks.flatten)).rejected = false) :
    ∃ lists, feed buffer chunks =
        ((frameParser.drain (buffer ++ chunks.flatten)).rest, .ok lists) ∧
      lists.flatten = (frameParser.drain (buffer ++ chunks.flatten)).items := by
  induction chunks generalizing buffer with
  | nil =>
      refine ⟨[], ?_, ?_⟩ <;> simp [feed, frameParser.drain_more hbuffer]
  | cons chunk rest ih =>
      rw [List.flatten_cons, ← List.append_assoc] at hok ⊢
      have hchunk := frameParser.rejected_of_append hok
      have hsplit := frameParser.drain_append hchunk rest.flatten
      rw [hsplit] at hok
      have hnext := frameParser.next_drain_rest (buffer ++ chunk)
      rw [hchunk] at hnext
      obtain ⟨lists, hfeed, hflat⟩ := ih hnext hok
      refine ⟨(frameParser.drain (buffer ++ chunk)).items :: lists, ?_, ?_⟩
      · rw [hsplit]
        simp [feed, decodeInput_eq, decodeResult, hchunk, hfeed]
      · rw [hsplit]
        simp [hflat]

/-- The codec round trip under any chunking, and the exactness of every decode that
returns. -/
theorem decode_roundtrip :
    (∀ (payloads : List Bytes) (further tail last : Bytes) (frames chunks : List Bytes),
      (∀ p ∈ payloads, p.length ≤ maxFrameSize) → further.length ≤ maxFrameSize →
      payloads.mapM encode = .ok frames → encode further = .ok last →
      tail <+: last → tail ≠ last → chunks.flatten = frames.flatten ++ tail →
      ∃ lists, feed [] chunks = (tail, .ok lists) ∧ lists.flatten = payloads) ∧
    ∀ (buffer data buffer' : Bytes) (fs : List Bytes),
      decodeInput buffer (some data) data.length = (buffer', .ok fs) →
      (∃ frames, fs.mapM encode = .ok frames ∧ buffer ++ data = frames.flatten ++ buffer') ∧
      (buffer'.length < headerSize ∨
        (ntohl (buffer'.take headerSize) ≤ maxFrameSize ∧
          buffer'.length < headerSize + ntohl (buffer'.take headerSize))) := by
  constructor
  · intro payloads further tail last frames chunks hsize hfurther hframes hlast htail hne hchunks
    rw [encode_mapM hsize] at hframes
    rw [encode_eq hfurther] at hlast
    cases hframes
    cases hlast
    have hmore : frameParser.next tail = .more := by
      obtain ⟨missing, hmissing⟩ := htail
      cases hnext : frameParser.next tail with
      | more => rfl
      | bad =>
          have := frameParser.bad_append hnext missing
          rw [hmissing, ← List.append_nil (frameOf further)] at this
          rw [next_frameOf hfurther] at this
          cases this
      | item b rest =>
          have := frameParser.item_append hnext missing
          rw [hmissing, ← List.append_nil (frameOf further), next_frameOf hfurther] at this
          simp only [Next.item.injEq, List.nil_eq, List.append_eq_nil_iff] at this
          rw [this.2.2, List.append_nil] at hmissing
          exact absurd hmissing hne
    have hdrain : frameParser.drain chunks.flatten = ⟨payloads, tail, false⟩ := by
      rw [hchunks, ← List.flatMap_def, frameParser.drain_encoded
        (fun p hp ys => next_frameOf (hsize p hp) ys) tail, frameParser.drain_more hmore]
      simp
    obtain ⟨lists, hfeed, hflat⟩ := feed_eq chunks next_nil (by simp [hdrain])
    exact ⟨lists, by simpa [hdrain] using hfeed, by simpa [hdrain] using hflat⟩
  · intro buffer data buffer' fs h
    rw [decodeInput_eq, decodeResult] at h
    cases hrej : (frameParser.drain (buffer ++ data)).rejected with
    | true => simp [hrej] at h
    | false =>
        simp only [hrej, Bool.false_eq_true, if_false, List.nil_append, Prod.mk.injEq,
          Except.ok.injEq] at h
        obtain ⟨rfl, rfl⟩ := h
        have hnext := frameParser.next_drain_rest (buffer ++ data)
        rw [hrej] at hnext
        refine ⟨⟨_, encode_mapM (drain_items_le _), ?_⟩, nextFrame_more.mp hnext⟩
        rw [← List.flatMap_def]
        exact frameParser.drain_rebuild (fun h => (nextFrame_item h).1) _

/-- Two frames, the second of them empty, and a part of a third, in four chunks. -/
theorem decode_roundtrip_chunks :
    (∃ lists, feed [] [[0, 0], [], [0, 1, 65, 0], [0, 0, 0, 0, 0, 0]] = ([0, 0, 0], .ok lists) ∧
      lists.flatten = [[65], []]) ∧
    ∃ frames, [[65]].mapM encode = .ok frames ∧
      [0, 0] ++ [0, 1, 65, 0] = frames.flatten ++ [0] := by
  constructor
  · apply decode_roundtrip.1 [[65], []] [66] [0, 0, 0] [0, 0, 0, 1, 66]
      [[0, 0, 0, 1, 65], [0, 0, 0, 0]]
    · simp [maxFrameSize]
    · simp [maxFrameSize]
    · decide
    · decide
    · exact ⟨[1, 66], rfl⟩
    · decide
    · rfl
  · exact (decode_roundtrip.2 [0, 0] [0, 1, 65, 0] [0] [[65]] (by decide)).1

end TinyKv.FrameCodec

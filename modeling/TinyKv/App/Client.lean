import TinyKv.Net.Connection

/-!
# The command line client

The client reads a line, sends its frame and waits for the first frame that comes back. Its
calls block; what each of them returns is an argument of the function that makes it. Between
two calls the client stands at a point of the loop of `main`.
-/

namespace TinyKv

open Foundation FrameCodec

/-- The exceptions that end the client: the two of `SendAll` and `RecvFrame`, and those of the
codec. -/
inductive ClientError where
  | sendFailed
  | recvFailed
  | codec (error : CodecError)
deriving DecidableEq, Repr

/-- Where the loop of `main` stands: at the prompt, in `SendAll` or in `RecvFrame` for a line,
or behind the loop. -/
inductive ClientPoint where
  | prompt
  | sendAll (line : Bytes)
  | recvFrame (line : Bytes)
  | returned
  | threw (error : ClientError)
deriving DecidableEq

/-- The client: the bytes of the frame that `send` has not taken yet, and the buffer of
`RecvFrame`. The lines it has begun to send, the lines with the responses printed for them,
and the bytes dropped with the buffer are a record that it does not read. -/
structure Client where
  point : ClientPoint := .prompt
  unsent : Bytes := []
  buffer : Bytes := []
  asked : List Bytes := []
  printed : List (Bytes × Bytes) := []
  dropped : Bytes := []
deriving DecidableEq

/-- `Encode` throws for the size of its payload, or writes beyond the frame. -/
theorem FrameCodec.encode_error {line : Bytes} {e : CodecError} (h : encode line = .error e) :
    e = .payloadTooLarge ∨ e = .outOfBounds := by
  obtain hlarge | hfits := Nat.lt_or_ge maxFrameSize line.length
  · obtain hmod | hmod := Nat.lt_or_ge maxFrameSize (line.length % 2 ^ 32)
    · rw [encode_of_refused hmod] at h
      cases h
      exact .inl rfl
    · rw [encode_of_narrowed hlarge hmod] at h
      cases h
      exact .inr rfl
  · rw [encode_eq hfits] at h
    cases h

theorem FrameCodec.encode_ok {line frame : Bytes} (h : encode line = .ok frame) :
    line.length ≤ maxFrameSize ∧ frame = frameOf line := by
  obtain hlarge | hfits := Nat.lt_or_ge maxFrameSize line.length
  · obtain ⟨e, he⟩ := encode_of_too_large hlarge
    rw [he] at h
    cases h
  · rw [encode_eq hfits] at h
    exact ⟨hfits, (Except.ok.inj h).symm⟩

namespace Client

/-- The client has left the loop, and its socket is closed. -/
def gone (c : Client) : Bool :=
  match c.point with
  | .returned | .threw _ => true
  | .prompt | .sendAll _ | .recvFrame _ => false

/-- `std::getline` and `Encode`; `none` is the end of the input. -/
def getline (c : Client) : Option Bytes → Client
  | none => { c with point := .returned }
  | some line =>
      if line = [] then
        c
      else
        match encode line with
        | .error e => { c with point := .threw (.codec e) }
        | .ok frame =>
            { c with point := .sendAll line, unsent := frame, asked := c.asked ++ [line] }

/-- One `send` of `SendAll`, with the bytes it hands to the kernel. -/
def sendAll (c : Client) (line : Bytes) : SendResult → Client × Bytes
  | .accepted bytes =>
      let sent := min bytes c.unsent.length
      if sent = 0 then
        ({ c with point := .threw .sendFailed }, [])
      else if sent < c.unsent.length then
        ({ c with unsent := c.unsent.drop sent }, c.unsent.take sent)
      else
        ({ c with point := .recvFrame line, unsent := [] }, c.unsent)
  | .wouldBlock | .failed => ({ c with point := .threw .sendFailed }, [])

/-- `sizeof(temp)`. -/
def recvSize : Nat := 4096

/-- One `recv` of `RecvFrame`. The first frame is printed; the buffer is a local variable and
goes with whatever else it holds. -/
def recvFrame (c : Client) (line : Bytes) : RecvResult → Client
  | .bytes ready =>
      let received := ready.take recvSize
      if received = [] then
        { c with point := .threw .recvFailed }
      else
        match decodeInput c.buffer (some received) received.length with
        | (buffer, .error e) => { c with buffer, point := .threw (.codec e) }
        | (buffer, .ok []) => { c with buffer }
        | (buffer, .ok (response :: others)) =>
            { c with
              point := if line = ascii "QUIT" ∨ line = ascii "quit" then .returned else .prompt
              buffer := []
              printed := c.printed ++ [(line, response)]
              dropped := c.dropped ++ others.flatMap frameOf ++ buffer }
  | .wouldBlock | .failed => { c with point := .threw .recvFailed }

/-- The lines that have been answered. -/
abbrev lines (c : Client) : List Bytes := c.printed.map Prod.fst

/-- The responses printed. -/
abbrev responses (c : Client) : List Bytes := c.printed.map Prod.snd

/-! ### What each function does -/

/-- What reading a line leads to. -/
inductive GetlineOutcome (c : Client) : Client → Prop where
  | ended : GetlineOutcome c { c with point := .returned }
  | empty : GetlineOutcome c c
  | refused (e : CodecError) (herror : e = .payloadTooLarge ∨ e = .outOfBounds) :
      GetlineOutcome c { c with point := .threw (.codec e) }
  | encoded (line : Bytes) (hfits : line.length ≤ maxFrameSize) :
      GetlineOutcome c
        { c with point := .sendAll line, unsent := frameOf line, asked := c.asked ++ [line] }

theorem getline_outcome (c : Client) (input : Option Bytes) :
    GetlineOutcome c (c.getline input) := by
  cases input with
  | none => exact .ended
  | some line =>
      by_cases hnil : line = []
      · rw [getline, if_pos hnil]
        exact .empty
      rw [getline, if_neg hnil]
      cases hframe : encode line with
      | error e => exact .refused e (encode_error hframe)
      | ok frame =>
          obtain ⟨hfits, rfl⟩ := encode_ok hframe
          exact .encoded line hfits

/-- What one `send` leads to. -/
inductive SendOutcome (c : Client) (line : Bytes) : Client × Bytes → Prop where
  | failed : SendOutcome c line ({ c with point := .threw .sendFailed }, [])
  | part (bytes more : Bytes) (hunsent : c.unsent = bytes ++ more) (hbytes : bytes ≠ [])
      (hmore : more ≠ []) : SendOutcome c line ({ c with unsent := more }, bytes)
  | all : SendOutcome c line ({ c with point := .recvFrame line, unsent := [] }, c.unsent)

theorem sendAll_outcome (c : Client) (line : Bytes) (result : SendResult) :
    SendOutcome c line (c.sendAll line result) := by
  cases result with
  | accepted bytes =>
      simp only [sendAll]
      split
      · exact .failed
      next hsome =>
        split
        · next hpart =>
          refine .part _ _ (List.take_append_drop ..).symm ?_ ?_
          · rw [← List.length_pos_iff, List.length_take]
            omega
          · rw [← List.length_pos_iff, List.length_drop]
            omega
        · exact .all
  | wouldBlock => exact .failed
  | failed => exact .failed

/-- What one `recv` leads to, when the bytes it returns break no frame. -/
inductive RecvOutcome (c : Client) (line received : Bytes) : Client → Prop where
  | incomplete (hitems : (frameParser.drain (c.buffer ++ received)).items = []) :
      RecvOutcome c line received { c with buffer := c.buffer ++ received }
  | complete (response : Bytes) (others : List Bytes) (quit : Bool)
      (hitems : (frameParser.drain (c.buffer ++ received)).items = response :: others) :
      RecvOutcome c line received { c with
        point := if quit then .returned else .prompt
        buffer := []
        printed := c.printed ++ [(line, response)]
        dropped := c.dropped ++ others.flatMap frameOf ++
          (frameParser.drain (c.buffer ++ received)).rest }

theorem recvFrame_outcome {c : Client} {ready : Bytes} (line : Bytes)
    (hready : ready.take recvSize ≠ [])
    (haccepted : (frameParser.drain (c.buffer ++ ready.take recvSize)).rejected = false) :
    RecvOutcome c line (ready.take recvSize) (c.recvFrame line (.bytes ready)) := by
  have hrebuild := drain_rebuild (c.buffer ++ ready.take recvSize)
  simp only [recvFrame, if_neg hready, decodeInput_eq, decodeResult, haccepted,
    Bool.false_eq_true, if_false, List.nil_append]
  cases hitems : (frameParser.drain (c.buffer ++ ready.take recvSize)).items with
  | nil =>
      rw [hitems, List.flatMap_nil, List.nil_append] at hrebuild
      rw [← hrebuild]
      exact .incomplete hitems
  | cons response others =>
      have hcomplete : RecvOutcome c line (ready.take recvSize) _ := .complete response others
        (decide (line = ascii "QUIT" ∨ line = ascii "quit")) hitems
      simpa only [decide_eq_true_eq] using hcomplete

end Client

end TinyKv

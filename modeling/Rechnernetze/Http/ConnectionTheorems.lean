import Rechnernetze.Http.Connection
import Rechnernetze.Http.HttpRequestTheorems

/-!
# What a connection receives and sends

The loop of `receive_bytes` stops after the first `recv`, since it compares three characters
with four: what arrives in several pieces is cut off (`receiveBytes_eq_iff`). A range is sent
from inside the payload unless its end is the length of the payload
(`range_response_inside_iff`).
-/

namespace Rechnernetze.Http

open Lib Connection

namespace Connection

section
variable {s piece : Bytes} {pieces : List Bytes} {recvs : List RecvResult}
  {response : HttpResponse} {range : Range}

/-! ## Receiving -/

/-- A way in which a text arrives: pieces that fit into the buffer, none of them empty, before
the peer has closed its side. -/
structure Segmentation (s : Bytes) (pieces : List Bytes) : Prop where
  flatten : pieces.flatten = s
  size : ∀ piece ∈ pieces, 1 ≤ piece.length ∧ piece.length ≤ recvBufferSize

/-- What the pieces are to `recv`. -/
def deliveries (pieces : List Bytes) : List RecvResult := pieces.map .bytes ++ [.bytes []]

/-- Three characters never equal four. -/
theorem receiveLoop_bytes {resultBuffer : Bytes} :
    receiveLoop resultBuffer (.bytes piece :: recvs)
      = if piece.length = 0 then .ok (resultBuffer ++ piece)
        else if (resultBuffer ++ piece).length < 3 then .error .lookBack
        else .ok (resultBuffer ++ piece) := by
  rw [receiveLoop]
  by_cases hpiece : piece.length = 0
  · rw [if_pos hpiece, if_pos hpiece]
  rw [if_neg hpiece, if_neg hpiece]
  by_cases hshort : (resultBuffer ++ piece).length < 3
  · rw [if_pos hshort, if_pos hshort]
  have hne : (resultBuffer ++ piece).drop ((resultBuffer ++ piece).length - 3) ≠ crlf ++ crlf := by
    intro h
    have hlength := congrArg List.length h
    have hfour : (crlf ++ crlf).length = 4 := rfl
    rw [List.length_drop, hfour] at hlength
    omega
  rw [if_neg hshort, if_neg hshort, if_neg hne]

theorem receiveBytes_deliveries (hne : piece.length ≠ 0) :
    receiveBytes (deliveries (piece :: pieces))
      = if piece.length < 3 then .error .lookBack else .ok piece := by
  rw [receiveBytes, deliveries, List.map_cons, List.cons_append, receiveLoop_bytes, if_neg hne]
  rfl

/-- **Reception** gives the text exactly if it is empty or arrives in one piece of at least
three bytes. -/
theorem receiveBytes_eq_iff (h : Segmentation s pieces) :
    receiveBytes (deliveries pieces) = .ok s ↔
      pieces = [] ∨ ∃ piece, pieces = [piece] ∧ 3 ≤ piece.length := by
  obtain ⟨rfl, hsize⟩ := h
  cases pieces with
  | nil => exact ⟨fun _ => Or.inl rfl, fun _ => rfl⟩
  | cons piece pieces =>
    have hpiece := hsize piece (List.mem_cons_self ..)
    rw [receiveBytes_deliveries (by omega)]
    constructor
    · intro h
      refine Or.inr ⟨piece, ?_, ?_⟩
      · split at h
        · cases h
        · -- the pieces after the first are missing
          have heq : piece = (piece :: pieces).flatten := Except.ok.inj h
          have hlength := congrArg List.length heq
          rw [List.flatten_cons, List.length_append] at hlength
          cases pieces with
          | nil => rfl
          | cons next pieces =>
            have hnext := hsize next (List.mem_cons_of_mem _ (List.mem_cons_self ..))
            rw [List.flatten_cons, List.length_append] at hlength
            omega
      · by_contra hshort
        rw [if_pos (by omega)] at h
        cases h
    · rintro (hnil | ⟨piece', heq, hlong⟩)
      · cases hnil
      · obtain ⟨rfl, rfl⟩ := List.cons.inj heq
        rw [if_neg (by omega), List.flatten_cons, List.flatten_nil, List.append_nil]

/-- **Segmentation.** The text is received, and parsed as a response, exactly if it is empty or
arrives in one piece of at least three bytes. -/
theorem reception_iff (s : Bytes) (pieces : List Bytes) (h : Segmentation s pieces) :
    receiveBytes (deliveries pieces) = .ok s ∧
        receiveHttpResponse (deliveries pieces) = HttpResponse.parse s ↔
      pieces = [] ∨ ∃ piece, pieces = [piece] ∧ 3 ≤ piece.length := by
  rw [← receiveBytes_eq_iff h]
  refine ⟨And.left, fun hs => ⟨hs, ?_⟩⟩
  rw [receiveHttpResponse, hs]
  rfl

end

/-- A response in one piece. -/
theorem example_reception :
    receiveBytes (deliveries [ascii "HTTP"]) = .ok (ascii "HTTP") ∧
      receiveHttpResponse (deliveries [ascii "HTTP"]) = HttpResponse.parse (ascii "HTTP") :=
  (reception_iff (ascii "HTTP") [ascii "HTTP"] ⟨rfl, by decide⟩).mpr
    (Or.inr ⟨ascii "HTTP", rfl, by decide⟩)

/-- A text in two pieces is cut off after the first. -/
theorem second_piece_lost :
    ¬ ∀ (s : Bytes) (pieces : List Bytes), Segmentation s pieces →
      receiveBytes (deliveries pieces) = .ok s := by
  intro h
  have hcut := h (ascii "HTTP/1.1") [ascii "HTTP", ascii "/1.1"] ⟨rfl, by decide⟩
  exact absurd hcut (by decide)

/-! ## Sending a range -/

/-- A range as `HttpRequest` produces it: its numbers are ints from 0 on, and it does not end
before it starts. -/
structure RangeOk (range : Range) : Prop where
  start : 0 ≤ range.start
  start_le : range.start ≤ intMax
  stop : ∀ stop, range.stop = some stop → range.start ≤ stop ∧ stop ≤ intMax

/-- The last byte asked for of a document of `n` bytes. -/
def lastAsked (range : Range) (n : ℤ) : ℤ :=
  match range.stop with
  | some stop => min stop (n - 1)
  | none => n - 1

theorem rangeOk_of_parse {data : Bytes} {request : HttpRequest} {range : Range}
    (h : HttpRequest.parse data = .ok request) (hrange : request.range = some range) :
    RangeOk range := by
  obtain ⟨rangeString, hparse⟩ := (HttpRequest.parse_ok h).2.2 range hrange
  obtain ⟨hstart, hmax, hstop⟩ := HttpRequest.parseRange_ok hparse
  exact ⟨hstart, hmax, hstop⟩

/-- The bytes asked for, as far as the document has them. -/
def asked (range : Range) (payload : Bytes) : Bytes :=
  (payload.drop range.start.toNat).take
    (lastAsked range payload.length + 1 - range.start).toNat

/-- The block that is sent lies inside the payload and is as long as announced, and it holds
what is asked for where that begins inside the payload. -/
def ServedInside (response : HttpResponse) (range : Range) : Prop :=
  ∃ sent, sendRange response range = some sent ∧
    0 ≤ sent.block.start ∧ 0 ≤ sent.block.size ∧
    sent.block.start + sent.block.size ≤ response.payload.length ∧
    sent.header = (announce response sent.block.size.toNat).buildHeader ∧
    (range.start < response.payload.length →
      sent.block.bytes response.payload = asked range response.payload)

section
variable {response : HttpResponse} {range : Range} {stop : ℤ}

/-- What follows the header of a response to a range. -/
def sentBlock (response : HttpResponse) (start size : ℤ) : Sent :=
  ⟨(announce response size.toNat).buildHeader, ⟨start, size⟩⟩

theorem sendRange_behind (h : (response.payload.length : ℤ) < range.start) :
    sendRange response range = some (sentBlock response 0 response.payload.length) := by
  rw [sendRange, if_pos h, sentBlock, Int.toNat_natCast]
  rfl

theorem sendRange_onwards (h : range.start ≤ response.payload.length)
    (hstop : ∀ stop, range.stop = some stop → (response.payload.length : ℤ) < stop) :
    sendRange response range
      = some (sentBlock response range.start (response.payload.length - range.start)) := by
  rw [sendRange, if_neg (by omega)]
  cases hs : range.stop with
  | none => rfl
  | some stop =>
    have hlt := hstop stop hs
    simp only [Option.any_some, decide_eq_true hlt, if_true]
    rfl

theorem sendRange_between (h : range.start ≤ response.payload.length)
    (hs : range.stop = some stop) (hstop : stop ≤ response.payload.length) :
    sendRange response range
      = if intMax < stop - range.start + 1 then none
        else some (sentBlock response range.start (stop - range.start + 1)) := by
  have hge : ¬ (response.payload.length : ℤ) < stop := by omega
  rw [sendRange, if_neg (by omega), hs]
  simp only [Option.any_some, decide_eq_false hge, Bool.false_eq_true, if_false]
  rfl

/-- What is sent for a range: all of the payload, the payload from the start on, or a part
whose length may overflow. -/
theorem sendRange_cases (response : HttpResponse) (range : Range) :
    ((response.payload.length : ℤ) < range.start ∧
      sendRange response range = some (sentBlock response 0 response.payload.length)) ∨
    (range.start ≤ response.payload.length ∧
      (∀ stop, range.stop = some stop → (response.payload.length : ℤ) < stop) ∧
      sendRange response range
        = some (sentBlock response range.start (response.payload.length - range.start))) ∨
    ∃ stop, range.stop = some stop ∧ range.start ≤ response.payload.length ∧
      stop ≤ response.payload.length ∧
      sendRange response range
        = if intMax < stop - range.start + 1 then none
          else some (sentBlock response range.start (stop - range.start + 1)) := by
  by_cases hbehind : (response.payload.length : ℤ) < range.start
  · exact Or.inl ⟨hbehind, sendRange_behind hbehind⟩
  have hstart : range.start ≤ (response.payload.length : ℤ) := by omega
  by_cases honwards : ∀ stop, range.stop = some stop → (response.payload.length : ℤ) < stop
  · exact Or.inr (Or.inl ⟨hstart, honwards, sendRange_onwards hstart honwards⟩)
  · obtain ⟨stop, hno⟩ := not_forall.mp honwards
    obtain ⟨hs, hlt⟩ := Classical.not_imp.mp hno
    have hle : stop ≤ (response.payload.length : ℤ) := by omega
    exact Or.inr (Or.inr ⟨stop, hs, hstart, hle, sendRange_between hstart hs hle⟩)

theorem bytes_sentBlock (start size : ℤ) (payload : Bytes) :
    (sentBlock response start size).block.bytes payload
      = (payload.drop start.toNat).take size.toNat := rfl

theorem lastAsked_onwards {n : ℤ} (hstop : ∀ stop, range.stop = some stop → n < stop) :
    lastAsked range n = n - 1 := by
  unfold lastAsked
  split
  · rename_i stop hs
    have hlt := hstop stop hs
    exact min_eq_right (by omega)
  · rfl

theorem lastAsked_inside {n : ℤ} (hs : range.stop = some stop) (hstop : stop < n) :
    lastAsked range n = stop := by
  rw [lastAsked, hs]
  exact min_eq_left (by omega)

/-- **Ranges.** What is sent for a range stays inside the payload, and is what was asked for,
exactly if the range does not end at the length of the payload and its length is an int. -/
theorem range_response_inside_iff (response : HttpResponse) (range : Range)
    (hrange : RangeOk range) :
    ServedInside response range ↔
      range.stop ≠ some (response.payload.length : ℤ) ∧
        ¬ (range.start = 0 ∧ range.stop = some intMax ∧
          intMax ≤ (response.payload.length : ℤ)) := by
  obtain ⟨hstart, hstartMax, hstop⟩ := hrange
  rcases sendRange_cases response range
    with ⟨hbehind, hsend⟩ | ⟨hle, honwards, hsend⟩ | ⟨stop, hs, hle, hstopLe, hsend⟩
  · -- the whole payload is sent
    refine ⟨fun _ => ⟨fun hs => ?_, fun h => ?_⟩, fun _ => ⟨_, hsend, ?_⟩⟩
    · have hle := (hstop _ hs).1
      omega
    · omega
    · refine ⟨le_refl _, Int.natCast_nonneg _, ?_, rfl, fun h => absurd h (by omega)⟩
      show (0 : ℤ) + response.payload.length ≤ response.payload.length
      omega
  · -- the payload is sent to its end
    refine ⟨fun _ => ⟨fun hs => ?_, fun h => ?_⟩, fun _ => ⟨_, hsend, ?_⟩⟩
    · have hlt := honwards _ hs
      omega
    · have hlt := honwards _ h.2.1
      omega
    · refine ⟨hstart, ?_, ?_, rfl, fun hinside => ?_⟩
      · show (0 : ℤ) ≤ response.payload.length - range.start
        omega
      · show range.start + (response.payload.length - range.start) ≤ response.payload.length
        omega
      · rw [bytes_sentBlock, asked, lastAsked_onwards honwards]
        congr 2
        omega
  · -- the end may be one too many, or the length too large
    obtain ⟨hstartStop, hstopMax⟩ := hstop stop hs
    constructor
    · rintro ⟨sent, hsent, -, -, hinside, -⟩
      -- what is sent lies inside, so it does not end at the length
      by_cases hoverflow : intMax < stop - range.start + 1
      · rw [hsend, if_pos hoverflow] at hsent
        cases hsent
      · rw [hsend, if_neg hoverflow] at hsent
        obtain rfl := Option.some.inj hsent
        have hend : range.start + (stop - range.start + 1)
            ≤ (response.payload.length : ℤ) := hinside
        refine ⟨fun h => ?_, fun h => ?_⟩
        · rw [hs] at h
          have heq := Option.some.inj h
          omega
        · rw [hs] at h
          have heq := Option.some.inj h.2.1
          omega
    · rintro ⟨hne, hno⟩
      have hlt : stop < (response.payload.length : ℤ) := by
        have hne' : stop ≠ (response.payload.length : ℤ) := by
          rintro rfl
          exact hne hs
        omega
      have hoverflow : ¬ intMax < stop - range.start + 1 := by
        intro hlong
        exact hno ⟨by omega, by rw [hs]; congr 1; omega, by omega⟩
      rw [if_neg hoverflow] at hsend
      refine ⟨_, hsend, hstart, ?_, ?_, rfl, fun hinside => ?_⟩
      · show (0 : ℤ) ≤ stop - range.start + 1
        omega
      · show range.start + (stop - range.start + 1) ≤ (response.payload.length : ℤ)
        omega
      · rw [bytes_sentBlock, asked, lastAsked_inside hs hlt]
        congr 2
        omega

end

/-- The first byte of two. -/
theorem example_range_response :
    ServedInside ⟨.OK, [], ascii "ab"⟩ ⟨0, some 0⟩ :=
  (range_response_inside_iff ⟨.OK, [], ascii "ab"⟩ ⟨0, some 0⟩
    ⟨by decide, by decide, fun stop h => by cases h; decide⟩).mpr (by decide)

/-- The bytes from 0 to 1 of a document of one byte are two bytes. -/
theorem range_response_outside :
    ¬ ∀ (response : HttpResponse) (range : Range), RangeOk range → ServedInside response range := by
  intro h
  have hrange : RangeOk ⟨0, some 1⟩ := ⟨by decide, by decide, fun stop h => by cases h; decide⟩
  exact absurd ((range_response_inside_iff ⟨.OK, [], ascii "a"⟩ ⟨0, some 1⟩ hrange).mp
    (h ⟨.OK, [], ascii "a"⟩ ⟨0, some 1⟩ hrange)) (by decide)

end Connection

end Rechnernetze.Http

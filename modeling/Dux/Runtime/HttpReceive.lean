import Dux.Runtime.HttpRequest
import Mathlib.Data.List.SplitLengths

/-!
# Receiving HTTP messages

A connection delivers the bytes of a message in chunks, and a receive call takes at most one
of them.  A server takes one call for a request (`accept_request` in
`stdlib/net/server.dux`), a client one call over TLS and all that it needs otherwise
(`src/runtime/net_http.c`).
-/

namespace Dux.Runtime.Http

open Logic (cText ascii)

/-- `recv` and `SSL_read`: at most `size` bytes of the first chunk, and what is left.  No bytes
are the end. -/
def recv (size : Nat) : List Bytes → Bytes × List Bytes
  | [] => ([], [])
  | chunk :: rest =>
      if chunk.length ≤ size then (chunk, rest) else (chunk.take size, chunk.drop size :: rest)

theorem recv_append (size : Nat) (pending : List Bytes) :
    (recv size pending).1 ++ (recv size pending).2.flatten = pending.flatten := by
  cases pending with
  | nil => rfl
  | cons chunk rest =>
    rw [recv]
    split
    · rfl
    · rw [List.flatten_cons, List.flatten_cons, ← List.append_assoc, List.take_append_drop]

theorem length_recv_lt {size : Nat} {pending : List Bytes} (more : (recv size pending).1 ≠ []) :
    (recv size pending).2.flatten.length < pending.flatten.length := by
  have positive := List.length_pos_iff.2 more
  rw [← recv_append size pending, List.length_append]
  omega

def duxrtSockRecvStr (maxBytes : Nat) (pending : List Bytes) : Bytes := (recv maxBytes pending).1

def duxrtTlsRecv (cap : Nat) (pending : List Bytes) : Bytes := (recv cap pending).1

/-- The size of a buffer that grows when it fills. -/
def grow (cap total : Nat) : Nat := if cap - 1 ≤ total then cap * 2 else cap

def readLoop (cap : Nat) (buf : Bytes) (pending : List Bytes) : Bytes :=
  let r := recv (cap - buf.length - 1) pending
  if _more : r.1 = [] then buf
  else readLoop (grow cap (buf ++ r.1).length) (buf ++ r.1) r.2
termination_by pending.flatten.length
decreasing_by exact length_recv_lt _more

/-- `http_read_all`.  A string of more than `INT32_MAX` bytes has no result. -/
def httpReadAll (pending : List Bytes) : Option Bytes :=
  let buf := readLoop HTTP_BUF_SIZE [] pending
  if buf.length ≤ 2 ^ 31 - 1 then some buf else none

def acceptRequest (pending : List Bytes) : DuxHttpServerReq :=
  duxrtHttpParseRequest (duxrtSockRecvStr 65536 pending)

/-- How `duxrt_http_request` receives a response. -/
def receiveResponse (u : DuxUrl) (pending : List Bytes) : Option DuxHttpResp :=
  if u.scheme = ascii "https" then
    some (parseResponse (cText (duxrtTlsRecv HTTP_BUF_SIZE pending)))
  else (httpReadAll pending).map fun raw => parseResponse (cText raw)

/-- Whatever is received in chunks of some sizes is the same as in one chunk. -/
def SameAsWhole {β : Type*} (receive : List Bytes → β) (sizes : List Nat) : Prop :=
  ∀ chunks : List Bytes, chunks.map List.length = sizes →
    receive chunks = receive [chunks.flatten]

/-- No message depends on being delivered in chunks of some sizes. -/
def Unsegmented (sizes : List Nat) : Prop :=
  SameAsWhole acceptRequest sizes ∧ ∀ u, SameAsWhole (receiveResponse u) sizes

/-- The first chunk is all of a message, or fills the buffer. -/
def FirstSuffices (sizes : List Nat) : Prop :=
  sizes.sum ≤ sizes.headD 0 ∨ HTTP_BUF_SIZE ≤ sizes.headD 0

/-! ## The loop -/

section Receive

variable {size : Nat} {pending : List Bytes}

theorem length_recv_le (size : Nat) (pending : List Bytes) :
    (recv size pending).1.length ≤ size := by
  cases pending with
  | nil => exact Nat.zero_le size
  | cons chunk rest =>
    rw [recv]
    split
    · assumption
    · exact List.length_take_le size chunk

theorem recv_ne_nil (positive : 0 < size) (noEmpty : ∀ chunk ∈ pending, chunk ≠ [])
    (pending_ne : pending ≠ []) : (recv size pending).1 ≠ [] := by
  obtain ⟨chunk, rest, rfl⟩ := List.exists_cons_of_ne_nil pending_ne
  rw [recv]
  split
  · exact noEmpty chunk List.mem_cons_self
  · rw [← List.length_pos_iff, List.length_take]
    omega

theorem recv_noEmpty (noEmpty : ∀ chunk ∈ pending, chunk ≠ []) :
    ∀ chunk ∈ (recv size pending).2, chunk ≠ [] := by
  cases pending with
  | nil => exact noEmpty
  | cons chunk rest =>
    rw [recv]
    split
    · exact fun c member => noEmpty c (List.mem_cons_of_mem chunk member)
    · rintro c (_ | ⟨_, member⟩)
      · rw [← List.length_pos_iff, List.length_drop]
        omega
      · exact noEmpty c (List.mem_cons_of_mem chunk member)

end Receive

theorem readLoop_eq {cap : Nat} {buf : Bytes} {pending : List Bytes}
    (room : buf.length + 1 < cap) (noEmpty : ∀ chunk ∈ pending, chunk ≠ []) :
    readLoop cap buf pending = buf ++ pending.flatten := by
  induction cap, buf, pending using readLoop.induct with
  | case1 cap buf pending r ended =>
    rw [readLoop, dif_pos ended]
    have done : pending = [] := by
      by_contra more
      exact recv_ne_nil (by omega) noEmpty more ended
    rw [done, List.flatten_nil, List.append_nil]
  | case2 cap buf pending r more ih =>
    have atMost : r.1.length ≤ cap - buf.length - 1 := length_recv_le _ _
    have positive := List.length_pos_iff.2 more
    have step : readLoop cap buf pending =
        readLoop (grow cap (buf ++ r.1).length) (buf ++ r.1) r.2 := by
      rw [readLoop, dif_neg more]
    have room' : (buf ++ r.1).length + 1 < grow cap (buf ++ r.1).length := by
      rw [List.length_append, grow]
      split <;> omega
    rw [step, ih room' (recv_noEmpty noEmpty), List.append_assoc, recv_append]

theorem httpReadAll_eq {pending : List Bytes} (noEmpty : ∀ chunk ∈ pending, chunk ≠ []) :
    httpReadAll pending =
      if pending.flatten.length ≤ 2 ^ 31 - 1 then some pending.flatten else none := by
  rw [httpReadAll, readLoop_eq (by decide) noEmpty]
  rfl

/-! ## One call -/

section Single

variable {sizes : List Nat}

theorem recv_single (size : Nat) (chunk : Bytes) : (recv size [chunk]).1 = chunk.take size := by
  rw [recv]
  split
  · exact (List.take_of_length_le (by assumption)).symm
  · rfl

theorem recv_eq_of_firstSuffices {chunks : List Bytes}
    (enough : FirstSuffices (chunks.map List.length)) :
    (recv HTTP_BUF_SIZE chunks).1 = (recv HTTP_BUF_SIZE [chunks.flatten]).1 := by
  have size : HTTP_BUF_SIZE = 65536 := rfl
  rw [recv_single]
  cases chunks with
  | nil => rfl
  | cons chunk rest =>
    simp only [FirstSuffices, List.map_cons, List.sum_cons, List.headD_cons,
      ← List.length_flatten] at enough
    rw [recv]
    split
    · rcases enough with all | full
      · have nothing : rest.flatten = [] := List.length_eq_zero_iff.1 (by omega)
        rw [List.flatten_cons, nothing, List.append_nil, List.take_of_length_le (by assumption)]
      · rw [List.flatten_cons, List.take_append_of_le_length full,
          List.take_of_length_le (by assumption)]
    · rw [List.flatten_cons, List.take_append_of_le_length (by omega)]

/-- What is read with one call does not depend on the chunks exactly if the first one is
enough, as long as what is read matters. -/
theorem sameAsWhole_iff {β : Type*} (parse : Bytes → β)
    (matters : ∀ n k, 0 < k → k < n → k < HTTP_BUF_SIZE →
      ∃ msg : Bytes, msg.length = n ∧ parse (msg.take k) ≠ parse (msg.take HTTP_BUF_SIZE))
    (positive : ∀ s ∈ sizes, 0 < s) :
    SameAsWhole (fun pending => parse (recv HTTP_BUF_SIZE pending).1) sizes ↔
      FirstSuffices sizes := by
  constructor
  · intro same
    by_contra short
    rw [FirstSuffices, not_or, Nat.not_le, Nat.not_le] at short
    cases sizes with
    | nil => exact absurd short.1 (Nat.lt_irrefl 0)
    | cons k rest =>
      rw [List.headD_cons] at short
      obtain ⟨msg, isLength, differ⟩ :=
        matters _ k (positive k List.mem_cons_self) short.1 short.2
      have parts : ((k :: rest).splitLengths msg).map List.length = k :: rest :=
        List.map_splitLengths_length _ _ (Nat.le_of_eq isLength.symm)
      have whole : ((k :: rest).splitLengths msg).flatten = msg :=
        List.flatten_splitLengths _ _ (Nat.le_of_eq isLength)
      have agree := same _ parts
      simp only [whole, recv_single] at agree
      apply differ
      have fits : (msg.take k).length ≤ HTTP_BUF_SIZE :=
        (List.length_take_le _ _).trans (Nat.le_of_lt short.2)
      rw [← agree, List.splitLengths_cons, recv, if_pos fits]
  · rintro enough chunks rfl
    simp only [recv_eq_of_firstSuffices enough]

end Single

/-! ## What matters -/

theorem findBody_newlines (m : Nat) :
    findBody (0x0a :: 0x0a :: List.replicate m 0x61) = List.replicate m 0x61 := by
  have noReturn : 0x0d ∉ (0x0a :: 0x0a :: List.replicate m 0x61 : Bytes) := by
    simp [List.mem_replicate]
  have found : [0x0a, 0x0a] <+: (0x0a :: 0x0a :: List.replicate m 0x61 : Bytes) := ⟨_, rfl⟩
  rw [findBody, blankLine, Logic.strstr_eq_none_of_notMem noReturn]
  simp only [Logic.strstr_of_isPrefix found]
  rfl

theorem parseRequest_matters (n k : Nat) (positive : 0 < k) (short : k < n)
    (fits : k < HTTP_BUF_SIZE) :
    ∃ msg : Bytes, msg.length = n ∧
      duxrtHttpParseRequest (msg.take k) ≠ duxrtHttpParseRequest (msg.take HTTP_BUF_SIZE) := by
  have size : HTTP_BUF_SIZE = 65536 := rfl
  have whole (m : Nat) : (duxrtHttpParseRequest (0x0a :: 0x0a :: List.replicate m 0x61)).body =
      List.replicate m 0x61 := by
    have noNul : 0 ∉ (0x0a :: 0x0a :: List.replicate m 0x61 : Bytes) := by
      simp [List.mem_replicate]
    rw [duxrtHttpParseRequest, Logic.cText_eq_self_iff.2 noNul]
    exact findBody_newlines m
  by_cases two : n = 2
  · obtain rfl : k = 1 := by omega
    subst two
    refine ⟨[0x61, 0x0a], rfl, ?_⟩
    have method : (duxrtHttpParseRequest [0x61]).method ≠
        (duxrtHttpParseRequest [0x61, 0x0a]).method := by decide +kernel
    have taken : ([0x61, 0x0a] : Bytes).take HTTP_BUF_SIZE = [0x61, 0x0a] :=
      List.take_of_length_le (by decide)
    rw [taken]
    exact fun same => method (congrArg DuxHttpServerReq.method same)
  · refine ⟨0x0a :: 0x0a :: List.replicate (n - 2) 0x61, ?_, ?_⟩
    · simp only [List.length_cons, List.length_replicate]
      omega
    · intro same
      have bodies := congrArg DuxHttpServerReq.body same
      have isSize : HTTP_BUF_SIZE = 65534 + 1 + 1 := rfl
      rw [isSize, List.take_succ_cons, List.take_succ_cons, List.take_replicate, whole] at bodies
      have lengths := congrArg List.length bodies
      obtain rfl | ⟨j, rfl⟩ : k = 1 ∨ ∃ j, k = j + 1 + 1 := by
        rcases Nat.lt_or_ge k 2 with one | more
        · exact .inl (by omega)
        · exact .inr ⟨k - 2, by omega⟩
      · have none : (duxrtHttpParseRequest [0x0a]).body = [] := by decide +kernel
        rw [List.take_succ_cons, List.take_zero, none] at lengths
        simp only [List.length_nil, List.length_replicate] at lengths
        omega
      · rw [List.take_succ_cons, List.take_succ_cons, List.take_replicate, whole] at lengths
        simp only [List.length_replicate] at lengths
        omega

theorem parseResponse_matters (n k : Nat) (short : k < n) (fits : k < HTTP_BUF_SIZE) :
    ∃ msg : Bytes, msg.length = n ∧
      some (parseResponse (cText (msg.take k))) ≠
        some (parseResponse (cText (msg.take HTTP_BUF_SIZE))) := by
  have body (m : Nat) : (parseResponse (cText (List.replicate m 0x61))).body =
      List.replicate m 0x61 := by
    have noNul : 0 ∉ (List.replicate m 0x61 : Bytes) := by simp [List.mem_replicate]
    have noBreak : firstLine (List.replicate m 0x61) = none := by
      have noReturn : 0x0d ∉ (List.replicate m 0x61 : Bytes) := by simp [List.mem_replicate]
      have noLine : 0x0a ∉ (List.replicate m 0x61 : Bytes) := by simp [List.mem_replicate]
      rw [firstLine, crlf, Logic.strstr_eq_none_of_notMem noReturn]
      simp only [Logic.strchr, Logic.strstr_eq_none_of_notMem noLine]
      rfl
    rw [Logic.cText_eq_self_iff.2 noNul, parseResponse, noBreak]
  refine ⟨List.replicate n 0x61, List.length_replicate, ?_⟩
  intro same
  have bodies := congrArg DuxHttpResp.body (Option.some.inj same)
  rw [List.take_replicate, List.take_replicate, body, body] at bodies
  have lengths := congrArg List.length bodies
  simp only [List.length_replicate] at lengths
  omega

/-! ## Segments -/

section Segments

variable {sizes : List Nat} (positive : ∀ s ∈ sizes, 0 < s)

include positive

theorem acceptRequest_iff : SameAsWhole acceptRequest sizes ↔ FirstSuffices sizes :=
  sameAsWhole_iff duxrtHttpParseRequest parseRequest_matters positive

theorem receiveResponse_https_iff {u : DuxUrl} (isHttps : u.scheme = ascii "https") :
    SameAsWhole (receiveResponse u) sizes ↔ FirstSuffices sizes := by
  have single : receiveResponse u =
      fun pending => some (parseResponse (cText (recv HTTP_BUF_SIZE pending).1)) := by
    funext pending
    rw [receiveResponse, if_pos isHttps]
    rfl
  rw [single]
  exact sameAsWhole_iff (fun raw => some (parseResponse (cText raw)))
    (fun n k _ => parseResponse_matters n k) positive

theorem receiveResponse_plain {u : DuxUrl} (isPlain : u.scheme ≠ ascii "https") :
    SameAsWhole (receiveResponse u) sizes := by
  intro chunks isSizes
  have noEmpty : ∀ chunk ∈ chunks, chunk ≠ [] := fun chunk member =>
    List.length_pos_iff.1 (positive _ (isSizes ▸ List.mem_map_of_mem member))
  rw [receiveResponse, receiveResponse, if_neg isPlain, if_neg isPlain, httpReadAll_eq noEmpty]
  by_cases isNil : chunks.flatten = []
  · have atEnd : readLoop HTTP_BUF_SIZE [] [[]] = [] := by
      have ended : (recv (HTTP_BUF_SIZE - 0 - 1) [[]]).1 = [] := recv_single _ []
      rw [readLoop, List.length_nil, dif_pos ended]
    rw [isNil, httpReadAll, atEnd]
  · rw [httpReadAll_eq fun chunk member => List.mem_singleton.1 member ▸ isNil,
      List.flatten_singleton]

/-- No message depends on the chunks exactly if the first one is enough. -/
theorem unsegmented_iff : Unsegmented sizes ↔ FirstSuffices sizes := by
  constructor
  · intro unsegmented
    exact (acceptRequest_iff positive).1 unsegmented.1
  · intro enough
    constructor
    · exact (acceptRequest_iff positive).2 enough
    · intro u
      by_cases isHttps : u.scheme = ascii "https"
      · exact (receiveResponse_https_iff positive isHttps).2 enough
      · exact receiveResponse_plain positive isHttps

end Segments

/-- A message in one chunk. -/
theorem unsegmented_one : Unsegmented [5] :=
  (unsegmented_iff (by decide)).2 (.inl (by decide))

/-- A request whose body comes in a second chunk is read without it. -/
theorem not_unsegmented : ¬∀ sizes, (∀ s ∈ sizes, 0 < s) → Unsegmented sizes := by
  intro always
  have same := (always [18, 2] (by decide)).1
    [ascii "GET / HTTP/1.1" ++ blankLine, ascii "hi"] (by decide +kernel)
  have bodies : (acceptRequest [ascii "GET / HTTP/1.1" ++ blankLine, ascii "hi"]).body ≠
      (acceptRequest [[ascii "GET / HTTP/1.1" ++ blankLine, ascii "hi"].flatten]).body := by
    decide +kernel
  exact bodies (congrArg DuxHttpServerReq.body same)

end Dux.Runtime.Http

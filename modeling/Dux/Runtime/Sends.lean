import Dux.Logic.Outlet
import Dux.Runtime.WebSocket

/-!
# Sending

A socket takes what it is given or only a beginning of it.  `ws_send_frame`
(`src/runtime/ws_rt.c`) looks whether `send` fails, `duxrt_http_request`
(`src/runtime/net_http.c`) and `send_response` (`stdlib/net/server.dux`) do not look at all.
-/

namespace Dux.Runtime.Sends

open Logic (Outlet cText)
open Http
open WebSocket (MaskingKey frameHeader framePayload frameBytes)

abbrev Socket := Outlet UInt8

/-! ## What sends -/

/-- `ws_send_frame`.  `memory` says whether a masked payload can be allocated. -/
def wsSendFrame (fd : Socket) (opcode : UInt8) (data : Bytes) (key : Option MaskingKey)
    (memory : Bool) : Int32 × Socket :=
  let header := fd.send (frameHeader true opcode data.length key)
  if header.1.isNone then (-1, header.2)
  else if data = [] then (0, header.2)
  else if key.isSome ∧ memory = false then (-1, header.2)
  else
    let sent := header.2.send (framePayload data key)
    if sent.1.isNone then (-1, sent.2) else (0, sent.2)

/-- `duxrt_http_request` once it is connected, with what it will receive. -/
def duxrtHttpRequest (fd : Socket) (meth url body : Bytes) (pending : List Bytes) :
    Option DuxHttpResp × Socket :=
  match urlParse (cText url) with
  | none => (none, fd)
  | some u =>
      match requestText (cText meth) u body with
      | none => (none, fd)
      | some req =>
          let sent := fd.send req
          (receiveResponse u pending, sent.2)

structure ServerResponse where
  status : Int32
  statusText : Bytes
  body : Bytes

def ServerResponse.toWire (resp : ServerResponse) : Option Bytes :=
  duxrtHttpFormatResponse resp.status (some resp.statusText) (some resp.body)

/-- The connection of an `HttpServer`, and those that it has closed. -/
structure HttpServer where
  client : Option Socket
  closed : List Socket := []

def HttpServer.sendResponse (server : HttpServer) (resp : ServerResponse) : Option HttpServer :=
  match server.client with
  | none => some server
  | some client =>
      resp.toWire.map fun wire =>
        let sent := client.send wire
        { client := none, closed := server.closed ++ [sent.2] }

/-! ## Messages -/

/-- A text is printed into a buffer: a head, an empty line and a body. -/
def printMessage (head body : Bytes) : Option Bytes :=
  ((printTo HTTP_BUF_SIZE [] head).bind fun head => printTo HTTP_BUF_SIZE head crlf).bind
    fun buf => appendBody HTTP_BUF_SIZE buf body

/-- The message as it was meant. -/
def wholeMessage (head body : Bytes) : Bytes := head ++ crlf ++ body

/-- A message of a WebSocket, a client or a server.  A request has a URL and a method for which
a text can be printed, and the response to it is a string; so is a response. -/
inductive Site where
  | frame (opcode : UInt8) (data : Bytes) (key : Option MaskingKey) (memory : Bool)
  | request (meth url body : Bytes) (pending : List Bytes) (u : DuxUrl) (req : Bytes)
      (isUrl : urlParse (cText url) = some u) (printed : requestText (cText meth) u body = some req)
      (isString : pending.flatten.length ≤ 2 ^ 31 - 1) (noEmpty : ∀ chunk ∈ pending, chunk ≠ [])
  | response (resp : ServerResponse) (wire : Bytes) (printed : resp.toWire = some wire)

namespace Site

/-- Whether success is reported, and the socket afterwards. -/
def run (site : Site) (fd : Socket) : Bool × Socket :=
  match site with
  | frame opcode data key memory =>
      let r := wsSendFrame fd opcode data key memory
      (r.1 = 0, r.2)
  | request meth url body pending .. =>
      let r := duxrtHttpRequest fd meth url body pending
      (r.1.isSome, r.2)
  | response resp .. =>
      let r := (HttpServer.mk (some fd) []).sendResponse resp
      (r.isSome, (r.bind fun server => server.closed.getLast?).getD fd)

/-- The bytes that should arrive. -/
def message : Site → Bytes
  | frame opcode data key _ => frameBytes true opcode data key
  | request meth _ body _ u .. =>
      wholeMessage (requestHead (cText meth) u.path u.host (intLength body.length)) body
  | response resp .. =>
      wholeMessage
        (responseHead resp.status (cText resp.statusText) (intLength resp.body.length)) resp.body

/-- All bytes of the message have been handed to the socket whenever success is reported. -/
def Complete (site : Site) (fd : Socket) : Prop :=
  (site.run fd).1 = true → (site.run fd).2.wire = fd.wire ++ site.message

/-- A failure is reported. -/
def Reported : Site → Socket → Prop
  | frame opcode data key memory, fd =>
      fd.Fails ∨ data ≠ [] ∧ (key.isSome ∧ memory = false ∨
        (fd.send (frameHeader true opcode data.length key)).2.Fails)
  | _, _ => False

/-- What is printed into a buffer fits there. -/
def Fits : Site → Prop
  | frame .. => True
  | site => site.message.length < HTTP_BUF_SIZE

/-- The socket takes all that it is given. -/
def Taken : Site → Socket → Prop
  | frame opcode data key _, fd =>
      fd.Takes (frameHeader true opcode data.length key) ∧
        (data ≠ [] →
          (fd.send (frameHeader true opcode data.length key)).2.Takes (framePayload data key))
  | request _ _ _ _ _ req .., fd => fd.Takes req
  | response _ wire .., fd => fd.Takes wire

end Site

/-! ## Printed texts -/

theorem requestText_eq (meth : Bytes) (u : DuxUrl) (body : Bytes) :
    requestText meth u body =
      printMessage (requestHead meth u.path u.host (intLength body.length)) body := by
  rw [requestText, printMessage, Option.bind_assoc]

theorem toWire_eq (resp : ServerResponse) :
    resp.toWire =
      printMessage (responseHead resp.status (cText resp.statusText) (intLength resp.body.length))
        resp.body := by
  rw [ServerResponse.toWire, duxrtHttpFormatResponse, printMessage, Option.bind_assoc]
  rfl

theorem appendBody_cases {buf body text : Bytes}
    (appended : appendBody HTTP_BUF_SIZE buf body = some text) :
    (text = buf ++ body ∧ (body ≠ [] → buf.length + body.length < HTTP_BUF_SIZE)) ∨
      (∃ added, text = buf ++ added ∧ added.length < body.length ∧
        HTTP_BUF_SIZE ≤ buf.length + body.length) := by
  have size : HTTP_BUF_SIZE = 65536 := rfl
  have small : ¬HTTP_BUF_SIZE ≤ body.length → intLength body.length = body.length := by
    intro small
    exact intLength_of_lt (by omega)
  unfold appendBody at appended
  simp only at appended
  split at appended
  · next noBody =>
    cases appended
    by_cases large : HTTP_BUF_SIZE ≤ body.length
    · exact .inr ⟨[], by simp, by simp; omega, by omega⟩
    · rw [small large] at noBody
      have none' : body = [] := List.eq_nil_of_length_eq_zero (by omega)
      exact .inl ⟨by simp [none'], fun some' => absurd none' some'⟩
  · split at appended
    · cases appended
    · split at appended
      · next fits =>
        cases appended
        by_cases large : HTTP_BUF_SIZE ≤ body.length
        · refine .inr ⟨_, rfl, ?_, by omega⟩
          rw [List.length_take]
          omega
        · rw [small large] at fits
          rw [small large, Int.toNat_natCast, List.take_length]
          exact .inl ⟨rfl, fun _ => by omega⟩
      · next positive _ tooLong =>
        cases appended
        refine .inr ⟨[], by simp, ?_, ?_⟩
        · rw [List.length_nil]
          by_contra none'
          have zero : body.length = 0 := by omega
          rw [zero, intLength_zero] at positive
          exact positive le_rfl
        · by_contra short
          rw [small (by omega)] at tooLong
          omega

theorem printMessage_whole {head body text : Bytes} (printed : printMessage head body = some text) :
    text.length ≤ (wholeMessage head body).length ∧
      (text = wholeMessage head body ↔ (wholeMessage head body).length < HTTP_BUF_SIZE) := by
  have two : crlf.length = 2 := rfl
  have length : (wholeMessage head body).length = head.length + 2 + body.length := by
    rw [wholeMessage, List.length_append, List.length_append, two]
  rw [printMessage, printHead_eq] at printed
  rw [length]
  split at printed
  · next fits =>
    have buf : (head ++ crlf).length = head.length + 2 := by rw [List.length_append, two]
    rw [Option.bind_some] at printed
    rcases appendBody_cases printed with ⟨rfl, small⟩ | ⟨added, rfl, short, large⟩
    · constructor
      · rw [List.length_append, buf]
      · constructor
        · intro _
          by_cases none' : body = []
          · rw [none', List.length_nil]
            omega
          · have := small none'
            omega
        · exact fun _ => rfl
    · constructor
      · rw [List.length_append, buf]
        omega
      · constructor
        · intro same
          have := congrArg List.length same
          rw [length, List.length_append, buf] at this
          omega
        · omega
  · split at printed
    · next full =>
      have buf : (head ++ [0x0d, 0]).length = HTTP_BUF_SIZE := by
        rw [List.length_append]
        exact full
      rw [Option.bind_some] at printed
      obtain rfl := appendBody_full buf printed
      constructor
      · omega
      · constructor
        · intro same
          rw [wholeMessage, List.append_assoc, List.append_cancel_left_eq] at same
          cases same
        · omega
    · cases printed

/-- A text given to a socket whose answer is not looked at arrives as it was meant exactly if it
is what was meant and the socket takes all of it. -/
theorem send_wire_unchecked_iff (fd : Socket) {head body text : Bytes}
    (printed : printMessage head body = some text) :
    (fd.send text).2.wire = fd.wire ++ wholeMessage head body ↔
      (wholeMessage head body).length < HTTP_BUF_SIZE ∧ fd.Takes text := by
  obtain ⟨atMost, whole⟩ := printMessage_whole printed
  by_cases fails : fd.Fails
  · rcases Outlet.send_cases fd text with ⟨-, -, wire⟩ | ⟨k, accepted, -, -⟩
    · constructor
      · intro same
        rw [wire, List.self_eq_append_right, wholeMessage, List.append_assoc,
          List.append_eq_nil_iff, List.append_eq_nil_iff] at same
        exact absurd same.2.1 (by decide)
      · rintro ⟨-, k, accepted, -⟩
        rw [fails] at accepted
        cases accepted
    · rw [fails] at accepted
      cases accepted
  · rw [Outlet.send_wire_iff fails atMost, whole]

theorem receiveResponse_isSome (u : DuxUrl) {pending : List Bytes}
    (isString : pending.flatten.length ≤ 2 ^ 31 - 1) (noEmpty : ∀ chunk ∈ pending, chunk ≠ []) :
    (receiveResponse u pending).isSome := by
  unfold receiveResponse
  split
  · rfl
  · rw [httpReadAll_eq noEmpty, if_pos isString]
    rfl

/-! ## WebSocket frames -/

theorem wsSendFrame_cases (fd : Socket) (opcode : UInt8) (data : Bytes)
    (key : Option MaskingKey) (memory : Bool) :
    ((wsSendFrame fd opcode data key memory).1 = -1 ∧
        (Site.frame opcode data key memory).Reported fd) ∨
      ((wsSendFrame fd opcode data key memory).1 = 0 ∧
        ¬(Site.frame opcode data key memory).Reported fd ∧
        ((wsSendFrame fd opcode data key memory).2.wire =
            fd.wire ++ frameBytes true opcode data key ↔
          (Site.frame opcode data key memory).Taken fd)) := by
  unfold wsSendFrame
  simp only [Site.Reported, Site.Taken, frameBytes]
  split
  · next none' => exact .inl ⟨rfl, .inl ((Outlet.send_isNone_iff _ _).1 none')⟩
  · next some' =>
    have works := mt (Outlet.send_isNone_iff _ _).2 some'
    split
    · next empty =>
      refine .inr ⟨rfl, ?_, ?_⟩
      · rintro (fails | ⟨notEmpty, -⟩)
        · exact works fails
        · exact notEmpty empty
      · have none' : framePayload data key = [] := by
          apply List.eq_nil_of_length_eq_zero
          rw [WebSocket.length_framePayload, empty, List.length_nil]
        rw [none', List.append_nil, Outlet.send_wire_iff works le_rfl]
        constructor
        · rintro ⟨-, takes⟩
          exact ⟨takes, fun notEmpty => absurd empty notEmpty⟩
        · rintro ⟨takes, -⟩
          exact ⟨rfl, takes⟩
    · next notEmpty =>
      split
      · next noMemory => exact .inl ⟨rfl, .inr ⟨notEmpty, .inl noMemory⟩⟩
      · next hasMemory =>
        split
        · next none' =>
          have fails := (Outlet.send_isNone_iff _ _).1 none'
          exact .inl ⟨rfl, .inr ⟨notEmpty, .inr fails⟩⟩
        · next some'' =>
          have works' := mt (Outlet.send_isNone_iff _ _).2 some''
          refine .inr ⟨rfl, ?_, ?_⟩
          · rintro (fails | ⟨-, noMemory | fails⟩)
            · exact works fails
            · exact hasMemory noMemory
            · exact works' fails
          · rw [Outlet.send_send_wire_iff works works']
            constructor
            · rintro ⟨takes, takes'⟩
              exact ⟨takes, fun _ => takes'⟩
            · rintro ⟨takes, takes'⟩
              exact ⟨takes, takes' notEmpty⟩

/-- What is sent arrives as a whole whenever success is reported, exactly if a failure is reported
or the message fits and the socket takes all that it is given. -/
theorem complete_iff (site : Site) (fd : Socket) :
    site.Complete fd ↔ site.Reported fd ∨ site.Fits ∧ site.Taken fd := by
  cases site with
  | frame opcode data key memory =>
    rcases wsSendFrame_cases fd opcode data key memory with
      ⟨result, reported⟩ | ⟨result, unreported, whole⟩
    · constructor
      · exact fun _ => .inl reported
      · intro _ success
        simp only [Site.run, result, decide_eq_true_eq] at success
        exact absurd success (by decide)
    · constructor
      · intro complete
        exact .inr ⟨trivial, whole.1 (complete (by simp [Site.run, result]))⟩
      · rintro (reported | ⟨-, taken⟩) _
        · exact absurd reported unreported
        · exact whole.2 taken
  | request meth url body pending u req isUrl printed isString noEmpty =>
    have result : (Site.request meth url body pending u req isUrl printed isString noEmpty).run fd =
        ((receiveResponse u pending).isSome, (fd.send req).2) := by
      simp only [Site.run, duxrtHttpRequest, isUrl, printed]
    have whole := send_wire_unchecked_iff fd ((requestText_eq _ _ _).symm.trans printed)
    rw [Site.Complete, result]
    constructor
    · intro complete
      exact .inr (whole.1 (complete (receiveResponse_isSome u isString noEmpty)))
    · rintro (reported | taken) _
      · exact reported.elim
      · exact whole.2 taken
  | response resp wire printed =>
    have result : (Site.response resp wire printed).run fd = (true, (fd.send wire).2) := by
      simp only [Site.run, HttpServer.sendResponse, printed]
      rfl
    have whole := send_wire_unchecked_iff fd ((toWire_eq _).symm.trans printed)
    rw [Site.Complete, result]
    constructor
    · intro complete
      exact .inr (whole.1 (complete rfl))
    · rintro (reported | taken) _
      · exact reported.elim
      · exact whole.2 taken

/-- A socket that takes one byte at a time gets the first byte of the header and the first one of
the payload, and success is reported. -/
theorem not_complete : ¬∀ (site : Site) (fd : Socket), site.Complete fd := by
  intro complete
  have sent := complete (.frame 0x2 [1, 2, 3] none true) ⟨fun _ => some 0, 0, []⟩ (by decide)
  exact absurd sent (by decide)

end Dux.Runtime.Sends

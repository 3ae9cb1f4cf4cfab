import Dux.Runtime.WebSocket
import Mathlib.Logic.Function.Basic

/-!
# The frames of a WebSocket connection

Threads send messages over a connection, one receives and answers pings, and one closes
(`src/runtime/ws_rt.c`).  Each frame is handed to the socket in two parts, and only those that
send messages take the mutex.
-/

namespace Dux.Runtime.WsConnection

open WebSocket (MaskingKey frameHeader framePayload DataKind)

/-- A connection is made by `duxrt_ws_connect` or by `duxrt_ws_accept`. -/
inductive Role where
  | client | server
  deriving DecidableEq

inductive Thread where
  | sender (i : Nat)
  | receiver
  | closer
  deriving DecidableEq

/-- What `ws_send_frame` is called with, with the key it makes if it masks. -/
structure Frame where
  opcode : UInt8
  data : Bytes
  key : Option MaskingKey

def Frame.header (f : Frame) : Bytes := frameHeader true f.opcode f.data.length f.key

def Frame.payload (f : Frame) : Bytes := framePayload f.data f.key

/-- Where a thread is: not in a call, waiting for the mutex, about to send the header of a frame
or the payload of one that has a number, or behind `ws_send_frame`. -/
inductive Stage where
  | away
  | locking (f : Frame)
  | header (f : Frame)
  | payload (f : Frame) (number : Nat)
  | leaving

/-- `DuxWsConn`, with the frames begun, the bytes on the wire with the number of their frame, and
the threads. -/
structure Conn where
  role : Role
  mutex : Option Nat := none
  closed : Bool := false
  frames : List Frame := []
  wire : List (Nat × UInt8) := []
  stage : Thread → Stage := fun _ => .away

def Conn.start (role : Role) : Conn := { role }

def Conn.goTo (c : Conn) (t : Thread) (stage : Stage) : Conn :=
  { c with stage := Function.update c.stage t stage }

/-- Bytes of a frame are handed to the socket. -/
def Conn.put (c : Conn) (number : Nat) (sent : Bytes) : Conn :=
  { c with wire := c.wire ++ sent.map (Prod.mk number) }

/-- What a thread does next. -/
inductive Act where
  | call (i : Nat) (kind : DataKind) (data : Bytes) (key : MaskingKey)
  | lock (i : Nat)
  | ping (data : Bytes)
  | shut (key : MaskingKey)
  | send (t : Thread)
  | leave (t : Thread)

inductive Step : Conn → Act → Conn → Prop
  /-- `duxrt_ws_send_text` and `duxrt_ws_send_binary` mask. -/
  | call {c : Conn} {i : Nat} (kind : DataKind) (data : Bytes) (key : MaskingKey)
      (idle : c.stage (.sender i) = .away) (isOpen : c.closed = false) :
      Step c (.call i kind data key)
        (c.goTo (.sender i) (.locking ⟨kind.opcode, data, some key⟩))
  | lock {c : Conn} {i : Nat} {f : Frame} (waits : c.stage (.sender i) = .locking f)
      (free : c.mutex = none) :
      Step c (.lock i) { c.goTo (.sender i) (.header f) with mutex := some i }
  /-- `ws_recv_frame` answers without a mask, and without the mutex. -/
  | ping {c : Conn} (data : Bytes) (idle : c.stage .receiver = .away)
      (isOpen : c.closed = false) :
      Step c (.ping data) (c.goTo .receiver (.header ⟨0xA, data, none⟩))
  /-- `duxrt_ws_close` masks, and does not take the mutex. -/
  | shut {c : Conn} (key : MaskingKey) (idle : c.stage .closer = .away)
      (isOpen : c.closed = false) :
      Step c (.shut key) (c.goTo .closer (.header ⟨0x8, [], some key⟩))
  /-- `send` takes a beginning of the header.  The payload is next, if there is one and its
  masked copy can be allocated. -/
  | header {c : Conn} {t : Thread} {f : Frame} (taken : Nat) (memory : Bool)
      (begins : c.stage t = .header f) (isOpen : c.closed = false) (some' : 0 < taken) :
      Step c (.send t)
        { (c.goTo t
            (if f.data = [] ∨ f.key.isSome ∧ memory = false then .leaving
              else .payload f c.frames.length)).put c.frames.length (f.header.take taken) with
          frames := c.frames ++ [f] }
  | payload {c : Conn} {t : Thread} {f : Frame} {number : Nat} (taken : Nat)
      (goesOn : c.stage t = .payload f number) (isOpen : c.closed = false) (some' : 0 < taken) :
      Step c (.send t) ((c.goTo t .leaving).put number (f.payload.take taken))
  /-- `send` fails, always so when the socket is closed. -/
  | headerFails {c : Conn} {t : Thread} {f : Frame} (begins : c.stage t = .header f) :
      Step c (.send t) (c.goTo t .leaving)
  | payloadFails {c : Conn} {t : Thread} {f : Frame} {number : Nat}
      (goesOn : c.stage t = .payload f number) : Step c (.send t) (c.goTo t .leaving)
  | unlock {c : Conn} {i : Nat} (done : c.stage (.sender i) = .leaving) :
      Step c (.leave (.sender i)) { c.goTo (.sender i) .away with mutex := none }
  | receive {c : Conn} (done : c.stage .receiver = .leaving) :
      Step c (.leave .receiver) (c.goTo .receiver .away)
  | close {c : Conn} (done : c.stage .closer = .leaving) :
      Step c (.leave .closer) { c.goTo .closer .away with closed := true }

/-- A run whose steps all meet a condition on the step and the state before it. -/
inductive Reaches (Meets : Conn → Act → Prop) (role : Role) : Conn → Prop
  | start : Reaches Meets role (.start role)
  | step {c c' : Conn} {a : Act} (before : Reaches Meets role c) (meets : Meets c a)
      (step : Step c a c') : Reaches Meets role c'

/-- Bytes of one frame stand between bytes of another. -/
def Interleaved (wire : List (Nat × UInt8)) : Prop :=
  ∃ first between last, [first, between, last].Sublist (wire.map Prod.fst) ∧ first = last ∧
    first ≠ between

/-- A client has masked what it wrote, a server has not, and no frames are interleaved. -/
structure Disciplined (c : Conn) : Prop where
  masked : ∀ f ∈ c.frames, f.key.isSome = true ↔ c.role = .client
  apart : ¬Interleaved c.wire

/-- A client answers no ping and does not send its close frame between the header and the payload
of a message, and a server neither sends a message nor closes. -/
def Careful (c : Conn) : Act → Prop
  | .call .. => c.role = .client
  | .ping _ => c.role = .server
  | .shut _ => c.role = .client
  | .send .closer => ∀ i f number, c.stage (.sender i) ≠ .payload f number
  | _ => True

/-! ## What careful runs keep -/

def Stage.Inside : Stage → Prop
  | .header _ => True
  | .payload .. => True
  | .leaving => True
  | _ => False

/-- The frame that is to be sent. -/
def Stage.frame : Stage → Option Frame
  | .locking f => some f
  | .header f => some f
  | _ => none

/-- What a thread may be about: in a client all but the receiver, in a server the receiver. -/
structure Allowed (role : Role) (t : Thread) (s : Stage) : Prop where
  active : s = .away ∨ (role = .server ↔ t = .receiver)
  right : ∀ f, s.frame = some f → (f.key.isSome = true ↔ role = .client)
  closes : t = .closer → (∀ f, s.frame = some f → f.data = []) ∧ ∀ f number, s ≠ .payload f number

/-- The frames on the wire stand in the order in which they were begun, and the only one that may
go on is the last. -/
structure Kept (c : Conn) : Prop where
  masked : ∀ f ∈ c.frames, f.key.isSome = true ↔ c.role = .client
  known : ∀ b ∈ c.wire, b.1 < c.frames.length
  sorted : (c.wire.map Prod.fst).Pairwise (· ≤ ·)
  newest : ∀ t f number, c.stage t = .payload f number → number + 1 = c.frames.length
  holds : ∀ i, (c.stage (.sender i)).Inside → c.mutex = some i
  allowed : ∀ t, Allowed c.role t (c.stage t)

theorem allowed_away (role : Role) (t : Thread) : Allowed role t .away :=
  ⟨.inl rfl, nofun, fun _ => ⟨nofun, nofun⟩⟩

theorem kept_start (role : Role) : Kept (.start role) where
  masked := nofun
  known := nofun
  sorted := List.Pairwise.nil
  newest := nofun
  holds := nofun
  allowed := allowed_away role

theorem not_interleaved_of_sorted {wire : List (Nat × UInt8)}
    (sorted : (wire.map Prod.fst).Pairwise (· ≤ ·)) : ¬Interleaved wire := by
  rintro ⟨first, between, last, sublist, same, other⟩
  have three := List.Pairwise.sublist sublist sorted
  simp only [List.pairwise_cons, List.mem_cons, List.not_mem_nil, or_false, forall_eq_or_imp,
    forall_eq] at three
  omega

theorem Kept.disciplined {c : Conn} (kept : Kept c) : Disciplined c :=
  ⟨kept.masked, not_interleaved_of_sorted kept.sorted⟩

section Steps

variable {c : Conn} {t : Thread} {f : Frame} {number : Nat}

theorem Kept.receiver_alone (kept : Kept c) (busy : c.stage .receiver ≠ .away)
    (busy' : c.stage t ≠ .away) : t = .receiver := by
  have isServer : c.role = .server := by
    rcases (kept.allowed .receiver).active with away | same
    · exact absurd away busy
    · exact same.2 rfl
  rcases (kept.allowed t).active with away | same
  · exact absurd away busy'
  · exact same.1 isServer

theorem Kept.quiet (kept : Kept c) (begins : c.stage t = .header f)
    (careful : Careful c (.send t)) (t' : Thread) (f' : Frame) (number : Nat) :
    c.stage t' ≠ .payload f' number := by
  intro goesOn
  have busy : c.stage t ≠ .away := by rw [begins]; nofun
  have busy' : c.stage t' ≠ .away := by rw [goesOn]; nofun
  have other : t ≠ t' := by
    rintro rfl
    rw [begins] at goesOn
    cases goesOn
  cases t' with
  | closer => exact ((kept.allowed .closer).closes rfl).2 f' number goesOn
  | receiver => exact other (kept.receiver_alone busy' busy)
  | sender j =>
    cases t with
    | closer => exact careful j f' number goesOn
    | receiver => exact other (kept.receiver_alone busy busy').symm
    | sender i =>
      have mine := kept.holds i (by rw [begins]; trivial)
      have theirs := kept.holds j (by rw [goesOn]; trivial)
      rw [mine, Option.some.injEq] at theirs
      exact other (congrArg _ theirs)

theorem stage_goTo (c : Conn) (t t' : Thread) (s : Stage) :
    (c.goTo t s).stage t' = if t' = t then s else c.stage t' :=
  Function.update_apply ..

theorem Kept.goTo (kept : Kept c) {s : Stage} (mutex : Option Nat) (closed : Bool)
    (allowed : Allowed c.role t s) (noPayload : ∀ f number, s ≠ .payload f number)
    (holds : ∀ i, ((c.goTo t s).stage (.sender i)).Inside → mutex = some i) :
    Kept { c.goTo t s with mutex, closed } where
  masked := kept.masked
  known := kept.known
  sorted := kept.sorted
  newest := by
    intro t' f number goesOn
    have goesOn' := (stage_goTo c t t' s).symm.trans goesOn
    split at goesOn'
    · exact absurd goesOn' (noPayload f number)
    · exact kept.newest t' f number goesOn'
  holds := holds
  allowed := by
    intro t'
    show Allowed c.role t' ((c.goTo t s).stage t')
    rw [stage_goTo]
    split
    · next same => exact same ▸ allowed
    · exact kept.allowed t'

theorem Kept.holds_goTo (kept : Kept c) {s : Stage}
    (mine : ∀ i, t = .sender i → s.Inside → c.mutex = some i) (i : Nat)
    (inside : ((c.goTo t s).stage (.sender i)).Inside) : c.mutex = some i := by
  rw [stage_goTo] at inside
  split at inside
  · next same => exact mine i same.symm inside
  · exact kept.holds i inside

theorem pairwise_append_replicate {numbers : List Nat} {n k : Nat}
    (sorted : numbers.Pairwise (· ≤ ·)) (atMost : ∀ m ∈ numbers, m ≤ n) :
    (numbers ++ List.replicate k n).Pairwise (· ≤ ·) := by
  rw [List.pairwise_append]
  constructor
  · exact sorted
  · constructor
    · exact List.pairwise_replicate.2 (.inr le_rfl)
    · intro m member m' member'
      rw [List.eq_of_mem_replicate member']
      exact atMost m member

theorem Kept.sorted_put (kept : Kept c) (sent : Bytes) (atLeast : c.frames.length ≤ number + 1) :
    ((c.put number sent).wire.map Prod.fst).Pairwise (· ≤ ·) := by
  have numbers : (sent.map (Prod.mk number)).map Prod.fst = List.replicate sent.length number := by
    rw [List.map_map]
    exact List.map_const' ..
  rw [Conn.put, List.map_append, numbers]
  apply pairwise_append_replicate kept.sorted
  intro m member
  obtain ⟨b, onWire, rfl⟩ := List.mem_map.1 member
  have := kept.known b onWire
  omega

theorem mem_put {sent : Bytes} {b : Nat × UInt8} (member : b ∈ (c.put number sent).wire) :
    b ∈ c.wire ∨ b.1 = number := by
  rcases List.mem_append.1 member with old | new
  · exact .inl old
  · obtain ⟨_, _, rfl⟩ := List.mem_map.1 new
    exact .inr rfl

end Steps

theorem Kept.allowed_leaving {c : Conn} {t : Thread} (kept : Kept c) (busy : c.stage t ≠ .away) :
    Allowed c.role t .leaving := by
  constructor
  · rcases (kept.allowed t).active with away | same
    · exact absurd away busy
    · exact .inr same
  · nofun
  · exact fun _ => ⟨nofun, nofun⟩

theorem allowed_masked {role : Role} {t : Thread} {s : Stage} {f : Frame}
    (isFrame : s.frame = some f) (isClient : role = .client) (other : t ≠ .receiver)
    (masked : f.key.isSome = true) (closes : t = .closer → f.data = []) : Allowed role t s := by
  subst isClient
  constructor
  · exact .inr ⟨nofun, fun same => absurd same other⟩
  · intro f' isFrame'
    rw [isFrame] at isFrame'
    cases isFrame'
    exact ⟨fun _ => rfl, fun _ => masked⟩
  · intro isCloser
    constructor
    · intro f' isFrame'
      rw [isFrame] at isFrame'
      cases isFrame'
      exact closes isCloser
    · rintro f' number rfl
      cases isFrame

theorem Kept.header {c : Conn} {t : Thread} {f : Frame} {s : Stage} (kept : Kept c)
    (begins : c.stage t = .header f) (careful : Careful c (.send t)) (sent : Bytes)
    (next : s = .leaving ∨ f.data ≠ [] ∧ s = .payload f c.frames.length) :
    Kept { (c.goTo t s).put c.frames.length sent with frames := c.frames ++ [f] } := by
  have allowed := kept.allowed t
  rw [begins] at allowed
  have length : (c.frames ++ [f]).length = c.frames.length + 1 := by
    rw [List.length_append, List.length_singleton]
  constructor
  · intro f' member
    rcases List.mem_append.1 member with old | new
    · exact kept.masked f' old
    · rw [List.mem_singleton.1 new]
      exact allowed.right f rfl
  · intro b member
    show b.1 < (c.frames ++ [f]).length
    rw [length]
    rcases mem_put member with old | new
    · exact Nat.lt_succ_of_lt (kept.known b old)
    · omega
  · exact kept.sorted_put sent (Nat.le_succ _)
  · intro t' f' number goesOn
    have goesOn' := (stage_goTo c t t' s).symm.trans goesOn
    show number + 1 = (c.frames ++ [f]).length
    rw [length]
    split at goesOn'
    · rcases next with rfl | ⟨-, rfl⟩
      · cases goesOn'
      · cases goesOn'
        rfl
    · exact absurd goesOn' (kept.quiet begins careful t' f' number)
  · apply kept.holds_goTo
    intro i isSender _
    subst isSender
    exact kept.holds i (by rw [begins]; trivial)
  · intro t'
    show Allowed c.role t' ((c.goTo t s).stage t')
    rw [stage_goTo]
    split
    · next same =>
      subst same
      rcases next with rfl | ⟨some', rfl⟩
      · exact kept.allowed_leaving (by rw [begins]; nofun)
      · constructor
        · rcases allowed.active with away | same
          · cases away
          · exact .inr same
        · nofun
        · intro isCloser
          exact absurd ((allowed.closes isCloser).1 f rfl) some'
    · exact kept.allowed t'

theorem Kept.put {c : Conn} {number : Nat} (kept : Kept c) (sent : Bytes)
    (newest : number + 1 = c.frames.length) : Kept (c.put number sent) where
  masked := kept.masked
  known := by
    intro b member
    rcases mem_put member with old | new
    · exact kept.known b old
    · exact Nat.lt_of_succ_le (new ▸ newest.le)
  sorted := kept.sorted_put sent newest.ge
  newest := kept.newest
  holds := kept.holds
  allowed := kept.allowed

theorem Kept.leaving {c : Conn} {t : Thread} (kept : Kept c) (busy : c.stage t ≠ .away)
    (inside : (c.stage t).Inside) : Kept (c.goTo t .leaving) := by
  apply kept.goTo c.mutex c.closed (kept.allowed_leaving busy) nofun
  apply kept.holds_goTo
  rintro i rfl _
  exact kept.holds i inside

theorem Kept.step {c c' : Conn} {a : Act} (kept : Kept c) (careful : Careful c a)
    (step : Step c a c') : Kept c' := by
  cases step with
  | @call i kind data key idle isOpen =>
    have allowed : Allowed c.role (.sender i) (.locking ⟨kind.opcode, data, some key⟩) :=
      allowed_masked rfl careful nofun rfl nofun
    apply kept.goTo c.mutex c.closed allowed nofun
    exact kept.holds_goTo fun _ _ inside => inside.elim
  | @lock i f waits free =>
    have waiting := kept.allowed (.sender i)
    rw [waits] at waiting
    have allowed : Allowed c.role (.sender i) (.header f) :=
      ⟨.inr (waiting.active.resolve_left nofun), waiting.right, nofun⟩
    apply kept.goTo (some i) c.closed allowed nofun
    intro j inside
    rw [stage_goTo] at inside
    split at inside
    · next same =>
      cases same
      rfl
    · have held := kept.holds j inside
      rw [free] at held
      cases held
  | ping data idle isOpen =>
    have isServer : c.role = .server := careful
    have allowed : Allowed c.role .receiver (.header ⟨0xA, data, none⟩) := by
      rw [isServer]
      constructor
      · exact .inr ⟨fun _ => rfl, fun _ => rfl⟩
      · rintro f ⟨⟩
        exact ⟨nofun, nofun⟩
      · nofun
    apply kept.goTo c.mutex c.closed allowed nofun
    exact kept.holds_goTo fun _ same _ => by cases same
  | shut key idle isOpen =>
    have allowed : Allowed c.role .closer (.header ⟨0x8, [], some key⟩) :=
      allowed_masked rfl careful nofun rfl fun _ => rfl
    apply kept.goTo c.mutex c.closed allowed nofun
    exact kept.holds_goTo fun _ same _ => by cases same
  | @header t f taken memory begins isOpen some' =>
    apply kept.header begins careful
    split
    · exact .inl rfl
    · next goesOn => exact .inr ⟨fun none' => goesOn (.inl none'), rfl⟩
  | payload taken goesOn isOpen some' =>
    have left := kept.leaving (by rw [goesOn]; nofun) (by rw [goesOn]; trivial)
    exact left.put _ (kept.newest _ _ _ goesOn)
  | headerFails begins => exact kept.leaving (by rw [begins]; nofun) (by rw [begins]; trivial)
  | payloadFails goesOn => exact kept.leaving (by rw [goesOn]; nofun) (by rw [goesOn]; trivial)
  | @unlock i done =>
    apply kept.goTo none c.closed (allowed_away _ _) nofun
    intro j inside
    rw [stage_goTo] at inside
    split at inside
    · exact inside.elim
    · next other =>
      have mine := kept.holds i (by rw [done]; trivial)
      have theirs := kept.holds j inside
      rw [mine, Option.some.injEq] at theirs
      exact absurd (congrArg _ theirs.symm) other
  | receive done =>
    apply kept.goTo c.mutex c.closed (allowed_away _ _) nofun
    exact kept.holds_goTo fun _ _ inside => inside.elim
  | close done =>
    apply kept.goTo c.mutex true (allowed_away _ _) nofun
    exact kept.holds_goTo fun _ _ inside => inside.elim

theorem kept_of_reaches {role : Role} {c : Conn} (reaches : Reaches Careful role c) : Kept c := by
  induction reaches with
  | start => exact kept_start role
  | step _ meets step ih => exact ih.step meets step

/-- In every run whose steps are careful, a client masks, a server does not, and no frames are
interleaved. -/
theorem disciplined_of_careful {role : Role} {c : Conn} (reaches : Reaches Careful role c) :
    Disciplined c :=
  (kept_of_reaches reaches).disciplined

def greeting : Frame := ⟨0x1, [72], some ⟨[9, 8, 7, 6], rfl⟩⟩

/-- The connection behind the header of that message. -/
def greeted : Conn :=
  let called := (Conn.start .client).goTo (.sender 0) (.locking greeting)
  let locked := { called.goTo (.sender 0) (.header greeting) with mutex := some 0 }
  { (locked.goTo (.sender 0) (.payload greeting 0)).put 0 greeting.header with
    frames := [greeting] }

theorem reaches_greeted (Meets : Conn → Act → Prop)
    (call : Meets (.start .client) (.call 0 .text [72] ⟨[9, 8, 7, 6], rfl⟩))
    (lock : ∀ c, Meets c (.lock 0)) (send : ∀ c, Meets c (.send (.sender 0))) :
    Reaches Meets .client greeted := by
  have called := Reaches.step .start call (.call .text [72] ⟨[9, 8, 7, 6], rfl⟩ rfl rfl)
  have locked := called.step (lock _) (.lock (f := greeting) rfl rfl)
  exact locked.step (send _) (.header (t := .sender 0) (f := greeting) 6 true rfl rfl (by decide))

theorem disciplined_greeted : Disciplined greeted :=
  disciplined_of_careful
    (reaches_greeted Careful rfl (fun _ => trivial) fun _ => trivial)

/-- A client answers a ping while it sends a message. -/
theorem not_disciplined :
    ¬∀ role c, Reaches (fun _ _ => True) role c → Disciplined c := by
  intro disciplined
  have begun := reaches_greeted (fun _ _ => True) trivial (fun _ => trivial) fun _ => trivial
  have pinged := begun.step trivial (.ping [7] rfl rfl)
  have answered := pinged.step trivial
    (.header (t := .receiver) (f := ⟨0xA, [7], none⟩) 2 true rfl rfl (by decide))
  have sent := answered.step trivial
    (.payload (t := .sender 0) (f := greeting) 1 rfl rfl (by decide))
  apply (disciplined _ _ sent).apart
  -- the message goes on behind the two bytes of the answer's header
  exact ⟨0, 1, 0, by decide, rfl, by decide⟩

end Dux.Runtime.WsConnection

import Dux.Runtime.WsMemory

/-!
# Streams that are received safely

Of every frame the step keeps what the call owns: the block of what is accumulated, and no other.
Only one length of a payload goes wrong, for which the size of the block wraps to zero.
-/

namespace Dux.Runtime.WsMemory

open Logic
open WebSocket (recvAll readFrame mask length_mask)

/-- What is accumulated, as the code has it and as bytes, and the block for it. -/
inductive Held : Option Nat → Nat → Option Bytes → List (Nat × Block) → Prop
  | null : Held none 0 none []
  | buffer (a : Nat) (data : Bytes) :
      Held (some a) data.length (some data) [(a, (data ++ [0]).map some)]

/-- The bytes that are accumulated, with the terminator. -/
def heldSize (accumulated : Option Bytes) : Nat := (accumulated.map (·.length + 1)).getD 0

/-- A frame that is added to what is accumulated. -/
def Appends (accumulated : Option Bytes) (f : WebSocket.Frame) : Prop :=
  (f.opcode ≠ 0x8 ∧ f.opcode ≠ 0x9 ∧ f.opcode ≠ 0xA) ∧
    (f.opcode = 0x0 ∨ accumulated.isSome = true)

/-- The blocks for a frame are not more than there are addresses. -/
structure Fits (accumulated : Option Bytes) (f : WebSocket.Frame) : Prop where
  malloc : heldSize accumulated + (f.payload.length + 1) < addressSpace
  realloc : Appends accumulated f →
    f.payload.length + 1 + ((accumulated.getD []).length + f.payload.length + 1) < addressSpace

/-- A stream on which the call gets to a frame whose payload is announced with the largest
length, 2⁶⁴ - 1.  All frames before it are complete and leave the message open. -/
inductive Announces : Option Bytes → List Bytes → Prop
  | here {accumulated : Option Bytes} {pending rest : List Bytes} {h : Header}
      (header : readHeader pending = some (h, rest)) (largest : h.payloadLen + 1 = 2 ^ 64) :
      Announces accumulated pending
  | later {accumulated accumulated' : Option Bytes} {pending rest : List Bytes}
      {f : WebSocket.Frame} (read : readFrame pending = some (f, rest))
      (more : verdict accumulated f = .more accumulated') (fits : Fits accumulated f)
      (announces : Announces accumulated' rest) : Announces accumulated pending

/-- What a call returns: null with everything given back, where there is no message or a request
was refused, or the message and its block. -/
inductive Receives (message : Option Bytes) : Option (Nat × Nat) → Arena → Prop
  | null {m : Arena} (freed : m.blocks = []) (why : message = none ∨ m.refused = true) :
      Receives message none m
  | payload {m : Arena} {p : Nat} {data : Bytes} (isMessage : message = some data)
      (kept : m.blocks = [(p, (data ++ [0]).map some)]) :
      Receives message (some (p, data.length)) m

/-- Whatever requests are refused, the call returns, no access and no release has gone wrong,
and it has received the message of the stream. -/
def Safe (pending : List Bytes) : Prop :=
  ∀ grants, ∃ rounds, ∀ more, rounds ≤ more → ∃ result m,
    wsRecvFrame grants more pending = .ok (result, m) ∧
      Receives (WebSocket.wsRecvFrame pending).message result m

/-! ## The frames of a call -/

section Steps

variable {grants : Allocator} {accumulated : Option Nat} {accLen p : Nat} {acc : Option Bytes}
  {owned : List (Nat × Block)} {m : Arena} {data : Bytes} {pending rest : List Bytes}
  {h : Header} {f : WebSocket.Frame} {b : Block}

theorem Held.totalSize (held : Held accumulated accLen acc owned) :
    totalSize owned = heldSize acc := by
  cases held with
  | null => rfl
  | buffer a data => simp [heldSize]

theorem Held.isSome (held : Held accumulated accLen acc owned) :
    accumulated.isSome = acc.isSome := by
  cases held <;> rfl

theorem Held.free (held : Held accumulated accLen acc owned) (owns : m.Owns owned) :
    ∃ m', m.free accumulated = .ok m' ∧ m'.Owns [] ∧ m'.refused = m.refused := by
  cases held with
  | null => exact ⟨m, rfl, owns, rfl⟩
  | buffer a data => exact owns.free

theorem giveUp_null (held : Held accumulated accLen acc owned) (owns : m.Owns owned) :
    ∃ m', giveUp none accumulated m = .ok (.returned none, m') ∧ m'.Owns [] ∧
      m'.refused = m.refused := by
  obtain ⟨m', freed, owns', same⟩ := held.free owns
  have nothing : m.free none = .ok m := rfl
  rw [giveUp, nothing, ok_bind, freed]
  exact ⟨m', rfl, owns', same⟩

theorem giveUp_payload (held : Held accumulated accLen acc owned)
    (owns : m.Owns ((p, b) :: owned)) :
    ∃ m', giveUp (some p) accumulated m = .ok (.returned none, m') ∧ m'.Owns [] ∧
      m'.refused = m.refused := by
  obtain ⟨m₁, freed, owns₁, same⟩ := owns.free
  obtain ⟨m', freed', owns', same'⟩ := held.free owns₁
  rw [giveUp, freed, ok_bind, freed']
  exact ⟨m', rfl, owns', same'.trans same⟩

/-- What a frame that has been read comes to. -/
inductive HandleAs (grants : Allocator) (acc : Option Bytes) (f : WebSocket.Frame)
    (rest : List Bytes) (refused : Bool) : Except Stop (Next × Arena) → Prop
  | null {m : Arena} (owns : m.Owns [])
      (why : verdict acc f = .ends none ∨
        m.refused = true ∧ ((∃ n size, grants n size = false) ∨ ¬Fits acc f)) :
      HandleAs grants acc f rest refused (.ok (.returned none, m))
  | payload {m : Arena} {p : Nat} {data : Bytes} (ends : verdict acc f = .ends (some data))
      (owns : m.Owns [(p, (data ++ [0]).map some)]) :
      HandleAs grants acc f rest refused (.ok (.returned (some (p, data.length)), m))
  | goOn {m : Arena} {accumulated : Option Nat} {accLen : Nat} {acc' : Option Bytes}
      {owned : List (Nat × Block)} (more : verdict acc f = .more acc') (fits : Fits acc f)
      (held : Held accumulated accLen acc' owned) (owns : m.Owns owned)
      (room : totalSize owned < addressSpace) (same : m.refused = refused) :
      HandleAs grants acc f rest refused (.ok (.goOn accumulated accLen rest, m))

theorem sizeT_of_lt {n : Nat} (small : n < addressSpace) : sizeT n = n := Nat.mod_eq_of_lt small

/-- The frame of a header with its payload. -/
def Header.frame (h : Header) (data : Bytes) : WebSocket.Frame := ⟨h.fin, h.opcode, data⟩

theorem read_terminated (data : Bytes) :
    Block.read ((data ++ [0]).map some) 0 data.length = .ok data := by
  have holds : Block.Holds ((data ++ [0]).map some) ([] ++ (data ++ [0])) := List.prefix_refl _
  exact holds.read

theorem copy_eq {t : Nat} {accData : Bytes} (length : h.payloadLen = data.length)
    (filling : b.Filling (accData.length + data.length + 1) accData)
    (owns : m.Owns [(t, b), (p, (data ++ [0]).map some)])
    (small : accData.length + data.length < addressSpace) :
    ∃ m', m'.refused = m.refused ∧ m'.Owns [(t, (accData ++ data ++ [0]).map some)] ∧
      copy h p t accData.length pending m =
        .ok (finish h t (accData ++ data).length pending, m') := by
  obtain ⟨b₁, written₁, filling₁⟩ := filling.write data (Nat.le_succ _)
  obtain ⟨m₁, stored₁, owns₁, same₁⟩ := owns.store written₁
  rw [Nat.add_assoc, ← Nat.add_assoc, ← List.length_append] at filling₁
  obtain ⟨m₂, stored₂, owns₂, same₂⟩ := owns₁.store (filling₁.write_last 0)
  obtain ⟨m₃, freed, owns₃, same₃⟩ := owns₂.swap.free
  refine ⟨m₃, same₃.trans (same₂.trans same₁), owns₃, ?_⟩
  rw [copy, owns.swap.load, length, read_terminated, ok_bind, stored₁, ok_bind,
    sizeT_of_lt small, ← List.length_append]
  dsimp only
  rw [stored₂, ok_bind, freed]
  rfl

theorem verdict_close (close : f.opcode = 0x8) : verdict acc f = .ends none :=
  if_pos close

theorem verdict_control (notClose : f.opcode ≠ 0x8) (isControl : f.opcode = 0x9 ∨ f.opcode = 0xA) :
    verdict acc f = .more acc := by
  rw [verdict, if_neg notClose, if_pos isControl]

theorem verdict_data (isData : f.opcode ≠ 0x8 ∧ f.opcode ≠ 0x9 ∧ f.opcode ≠ 0xA) :
    verdict acc f = if f.fin then .ends (some (acc.getD [] ++ f.payload))
    else .more (some (acc.getD [] ++ f.payload)) := by
  rw [verdict, if_neg isData.1, if_neg (not_or.2 isData.2)]

theorem handleAs_finish {refused : Bool} {message : Bytes}
    (isVerdict : verdict acc (h.frame data) =
      if h.fin then .ends (some message) else .more (some message))
    (fits : Fits acc (h.frame data)) (owns : m.Owns [(p, (message ++ [0]).map some)])
    (room : message.length + 1 < addressSpace) (same : m.refused = refused) :
    HandleAs grants acc (h.frame data) rest refused
      (.ok (finish h p message.length rest, m)) := by
  rw [finish]
  split
  · next fin =>
    rw [if_pos fin] at isVerdict
    exact .payload isVerdict owns
  · next unfinished =>
    rw [if_neg unfinished] at isVerdict
    refine .goOn isVerdict fits (.buffer p message) owns ?_ same
    simpa using room

theorem append_as (held : Held accumulated accLen acc owned)
    (owns : m.Owns ((p, (data ++ [0]).map some) :: owned)) (length : h.payloadLen = data.length)
    (malloc : heldSize acc + (data.length + 1) < addressSpace)
    (appends : Appends acc (h.frame data)) :
    HandleAs grants acc (h.frame data) rest m.refused
      (append grants h p accumulated accLen rest m) := by
  have isVerdict : verdict acc (h.frame data) = _ := verdict_data appends.1
  -- the request is not granted
  have refused {m' : Arena} (owns' : m'.Owns ((p, (data ++ [0]).map some) :: owned))
      (isRefused : m'.refused = true) (why : Arena.Refusable grants
        (data.length + 1 + ((acc.getD []).length + data.length + 1))) :
      HandleAs grants acc (h.frame data) rest m.refused
        (giveUp (some p) accumulated m') := by
    obtain ⟨m'', gaveUp, owns'', same⟩ := giveUp_payload held owns'
    rw [gaveUp]
    refine .null owns'' (.inr ⟨same.trans isRefused, why.imp_right fun large fits => ?_⟩)
    exact absurd (fits.realloc appends) (Nat.not_lt.2 large)
  -- it is
  have granted {m' : Arena} {t : Nat} {b : Block} (accData : Bytes) (isAcc : accData = acc.getD [])
      (filling : b.Filling (accData.length + data.length + 1) accData)
      (owns' : m'.Owns [(t, b), (p, (data ++ [0]).map some)])
      (fits : data.length + 1 + (accData.length + data.length + 1) < addressSpace)
      (same : m'.refused = m.refused) :
      HandleAs grants acc (h.frame data) rest m.refused
        (copy h p t accData.length rest m') := by
    obtain ⟨m'', same', owns'', copied⟩ := copy_eq length filling owns' (by omega)
    rw [copied]
    rw [← isAcc] at isVerdict
    refine handleAs_finish isVerdict ⟨malloc, fun _ => ?_⟩ owns'' ?_ (same'.trans same)
    · rw [← isAcc]
      exact fits
    · rw [List.length_append]
      omega
  cases held with
  | null =>
    have size : sizeT (0 + h.payloadLen + 1) = data.length + 1 := by
      rw [Nat.zero_add, length]
      exact sizeT_of_lt (Nat.lt_of_le_of_lt (Nat.le_add_left _ _) malloc)
    rw [append, size, Arena.realloc, ok_bind]
    rcases owns.malloc grants (data.length + 1) with
      ⟨t, m', isGranted, owns', fits, same⟩ | ⟨m', isRefused, owns', refusal, why⟩
    · rw [isGranted]
      refine granted [] rfl ?_ owns' ?_ same
      · rw [List.length_nil, Nat.zero_add]
        exact Block.filling_fresh _
      · simpa using fits
    · rw [isRefused]
      refine refused owns' refusal ?_
      simpa using why
  | buffer a accData =>
    have size : sizeT (accData.length + h.payloadLen + 1) = accData.length + data.length + 1 := by
      rw [length]
      refine sizeT_of_lt (Nat.lt_of_le_of_lt ?_ malloc)
      simp [heldSize]
      omega
    rw [append, size]
    rcases owns.swap.realloc grants (accData.length + data.length + 1) with
      ⟨t, m', isGranted, owns', fits, same⟩ | ⟨m', isRefused, owns', refusal, why⟩
    · rw [isGranted, ok_bind]
      refine granted accData rfl ?_ owns' (by simpa using fits) same
      refine ⟨?_, Block.length_resize _ _⟩
      have whole : Block.Holds ((accData ++ [0]).map some) (accData ++ [0]) := List.prefix_refl _
      exact whole.of_append.resize (by omega)
    · rw [isRefused, ok_bind]
      refine refused owns'.swap refusal ?_
      simpa using why

theorem handle_as (held : Held accumulated accLen acc owned)
    (owns : m.Owns ((p, (data ++ [0]).map some) :: owned)) (length : h.payloadLen = data.length)
    (malloc : heldSize acc + (data.length + 1) < addressSpace) :
    HandleAs grants acc (h.frame data) rest m.refused
      (handle grants h p accumulated accLen rest m) := by
  have notAppended (isControl : h.opcode = 0x9 ∨ h.opcode = 0xA) : Fits acc (h.frame data) :=
    ⟨malloc, fun appends => isControl.elim (absurd · appends.1.2.1) (absurd · appends.1.2.2)⟩
  have room : totalSize owned < addressSpace := by
    rw [held.totalSize]
    omega
  have control (isControl : h.opcode = 0x9 ∨ h.opcode = 0xA) (notClose : h.opcode ≠ 0x8) :
      verdict acc (h.frame data) = .more acc := verdict_control notClose isControl
  obtain ⟨m', freed, owns', same⟩ := owns.free
  rw [handle]
  split
  · next close =>
    obtain ⟨m'', gaveUp, owns'', -⟩ := giveUp_payload held owns
    rw [gaveUp]
    exact .null owns'' (.inl (verdict_close close))
  · next notClose =>
    split
    · next ping =>
      rw [owns.load, length, read_terminated, ok_bind, freed]
      exact .goOn (control (.inl ping) notClose) (notAppended (.inl ping)) held owns' room same
    · next notPing =>
      split
      · next pong =>
        rw [freed]
        exact .goOn (control (.inr pong) notClose) (notAppended (.inr pong)) held owns' room same
      · next notPong =>
        rw [held.isSome]
        split
        · next appends =>
          exact append_as held owns length malloc ⟨⟨notClose, notPing, notPong⟩, appends⟩
        · next first =>
          rw [not_or] at first
          cases held with
          | buffer a accData => exact absurd rfl first.2
          | null =>
            rw [length]
            refine handleAs_finish ?_ ⟨malloc, fun appends => ?_⟩ owns ?_ rfl
            · exact verdict_data ⟨notClose, notPing, notPong⟩
            · exact absurd appends.2 (not_or.2 first)
            · simpa [heldSize] using malloc

/-- What one frame of the loop comes to. -/
inductive StepAs (grants : Allocator) (acc : Option Bytes) (pending : List Bytes) (refused : Bool)
    (run : Except Stop (Next × Arena)) : Prop
  | frame {f : WebSocket.Frame} {rest : List Bytes} (read : readFrame pending = some (f, rest))
      (handled : HandleAs grants acc f rest refused run)
  | null {m : Arena} (returns : run = .ok (.returned none, m)) (owns : m.Owns [])
      (why : readFrame pending = none ∨ m.refused = true ∧ ((∃ n size, grants n size = false) ∨
        ∀ f rest, readFrame pending = some (f, rest) → ¬Fits acc f))

/-- The payload without its masking. -/
def Header.unmasked (h : Header) (data : Bytes) : Bytes :=
  if h.hasMask then mask h.maskingKey data else data

theorem Header.length_unmasked (h : Header) (data : Bytes) :
    (h.unmasked data).length = data.length := by
  rw [Header.unmasked]
  split
  · exact length_mask _ _
  · rfl

theorem unmask_eq {others : List (Nat × Block)} (length : h.payloadLen = data.length)
    (owns : m.Owns ((p, (data ++ [0]).map some) :: others)) :
    ∃ m', unmask h p m = .ok m' ∧ m'.Owns ((p, (h.unmasked data ++ [0]).map some) :: others) ∧
      m'.refused = m.refused := by
  rw [unmask, Header.unmasked]
  split
  · rw [owns.load, length, read_terminated, ok_bind]
    apply owns.store
    have fits : data.length ≤ (data ++ [0]).length := by simp
    rw [Block.write, length_mask, if_pos (by simp)]
    simp
  · exact ⟨m, rfl, owns, rfl⟩

theorem write_terminator (n : Nat) : (Block.fresh (n + 1)).write n [0] = .ok (arriving [] n) := by
  rw [Block.write, if_pos (by simp), Int.toNat_natCast]
  simp [Block.fresh, arriving]

theorem receive_as {read : List Bytes} (held : Held accumulated accLen acc owned)
    (header : readHeader pending = some (h, read))
    (owns : m.Owns ((p, Block.fresh (h.payloadLen + 1)) :: owned))
    (malloc : heldSize acc + (h.payloadLen + 1) < addressSpace) :
    StepAs grants acc pending m.refused (receive grants h p accumulated accLen read m) := by
  obtain ⟨m₁, stored, owns₁, same₁⟩ := owns.store (write_terminator h.payloadLen)
  obtain ⟨m₂, same₂, received⟩ := recvInto_eq read owns₁ (Nat.zero_le _)
  have whole := readFrame_of_header header
  rw [receive, stored, ok_bind]
  rcases received with ⟨data, rest, all, into, owns₂⟩ | ⟨b, rest, noMore, into, owns₂⟩
  · have length := (WebSocket.recvAll_append all).2
    rw [List.length_nil, Nat.sub_zero] at all length
    obtain ⟨m₃, unmasked, owns₃, same₃⟩ := unmask_eq length.symm owns₂
    rw [all, Option.map_some] at whole
    refine .frame whole ?_
    rw [show recvInto p h.payloadLen 0 read m₁ = _ from into, ok_bind]
    dsimp only
    rw [if_pos rfl, unmasked, ok_bind, ← same₁, ← same₂, ← same₃]
    have length' : h.payloadLen = (h.unmasked data).length := by
      rw [Header.length_unmasked, length]
    exact handle_as held owns₃ length' (length' ▸ malloc)
  · rw [List.length_nil, Nat.sub_zero] at noMore
    rw [noMore, Option.map_none] at whole
    rw [show recvInto p h.payloadLen 0 read m₁ = _ from into, ok_bind]
    dsimp only
    rw [if_neg (by decide)]
    obtain ⟨m₃, gaveUp, owns₃, -⟩ := giveUp_payload held owns₂
    exact .null gaveUp owns₃ (.inl whole)

theorem frameStep_as (held : Held accumulated accLen acc owned) (owns : m.Owns owned)
    (normal : ∀ h read, readHeader pending = some (h, read) → h.payloadLen + 1 ≠ 2 ^ 64) :
    StepAs grants acc pending m.refused (frameStep grants accumulated accLen pending m) := by
  rw [frameStep]
  cases header : readHeader pending with
  | none =>
    obtain ⟨m', gaveUp, owns', -⟩ := giveUp_null held owns
    exact .null gaveUp owns' (.inl (readFrame_of_none header))
  | some r =>
    obtain ⟨h, read⟩ := r
    have below := readHeader_lt header
    have other := normal h read header
    have size : sizeT (h.payloadLen + 1) = h.payloadLen + 1 := Nat.mod_eq_of_lt (by omega)
    dsimp only
    rw [size]
    rcases owns.malloc grants (h.payloadLen + 1) with
      ⟨p, m', granted, owns', fits, same⟩ | ⟨m', isRefused, owns', refusal, why⟩
    · rw [held.totalSize] at fits
      rw [granted, ← same]
      exact receive_as held header owns' fits
    · rw [isRefused]
      obtain ⟨m'', gaveUp, owns'', same⟩ := giveUp_null held owns'
      refine .null gaveUp owns'' (.inr ⟨same.trans refusal, why.imp_right ?_⟩)
      intro large f rest isFrame fits
      rw [readFrame_of_header header] at isFrame
      obtain ⟨⟨data, left⟩, all, isFrame⟩ := Option.map_eq_some_iff.1 isFrame
      cases isFrame
      have length := (WebSocket.recvAll_append all).2
      have room := fits.malloc
      rw [held.totalSize] at large
      have length' := h.length_unmasked data
      rw [Header.unmasked] at length'
      rw [length', length] at room
      exact absurd room (Nat.not_lt.2 large)

end Steps

/-! ## Calls -/

section Calls

variable {grants : Allocator} {accumulated : Option Nat} {accLen : Nat} {acc : Option Bytes}
  {owned : List (Nat × Block)} {m : Arena} {pending : List Bytes}

theorem frameStep_largest {h : Header} {read : List Bytes}
    (always : ∀ n size, grants n size = true) (owns : m.Owns owned)
    (room : totalSize owned < addressSpace) (header : readHeader pending = some (h, read))
    (largest : h.payloadLen + 1 = 2 ^ 64) :
    frameStep grants accumulated accLen pending m = .error .fault := by
  have size : sizeT (h.payloadLen + 1) = 0 := by
    rw [sizeT, largest, Nat.mod_self]
  rw [frameStep, header]
  dsimp only
  rw [size]
  rcases owns.malloc grants 0 with
    ⟨p, m', granted, owns', -, -⟩ | ⟨m', -, -, -, why⟩
  · have outside : (Block.fresh 0).write h.payloadLen [0] = .error .fault :=
      Block.write_fault (.inr (by simp))
    rw [granted]
    dsimp only
    rw [receive, owns'.store_fault outside]
    rfl
  · rcases why with ⟨n, size, refused⟩ | large
    · rw [always] at refused
      cases refused
    · exact absurd room (Nat.not_lt.2 large)

theorem recvLoop_of_announces (always : ∀ n size, grants n size = true)
    (announces : Announces acc pending) (held : Held accumulated accLen acc owned)
    (owns : m.Owns owned) (room : totalSize owned < addressSpace) (rounds : Nat)
    (result : Option (Nat × Nat) × Arena) :
    recvLoop grants rounds accumulated accLen pending m ≠ .ok result := by
  induction announces generalizing accumulated accLen owned m rounds with
  | here header largest =>
    cases rounds with
    | zero => simp [recvLoop]
    | succ rounds =>
      rw [recvLoop, frameStep_largest always owns room header largest, error_bind]
      simp
  | @later acc acc' pending rest f read more fits announces ih =>
    cases rounds with
    | zero => simp [recvLoop]
    | succ rounds =>
      rw [recvLoop]
      by_cases normal : ∀ h read, readHeader pending = some (h, read) → h.payloadLen + 1 ≠ 2 ^ 64
      · rcases frameStep_as held owns normal with ⟨read', handled⟩ | ⟨returns, owns', why⟩
        · rw [read] at read'
          cases read'
          generalize frameStep grants accumulated accLen pending m = run at handled ⊢
          cases handled with
          | null owns' why =>
            rcases why with ends | ⟨-, ⟨n, size, refused⟩ | noRoom⟩
            · rw [more] at ends
              cases ends
            · rw [always] at refused
              cases refused
            · exact absurd fits noRoom
          | payload ends owns' =>
            rw [more] at ends
            cases ends
          | goOn more' fits' held' owns' room' same =>
            rw [more] at more'
            cases more'
            exact ih held' owns' room' rounds
        · rcases why with noFrame | ⟨-, ⟨n, size, refused⟩ | noRoom⟩
          · rw [read] at noFrame
            cases noFrame
          · rw [always] at refused
            cases refused
          · exact absurd fits (noRoom f rest read)
      · push Not at normal
        obtain ⟨h, read', header, largest⟩ := normal
        rw [frameStep_largest always owns room header largest, error_bind]
        simp

theorem recvLoop_receives (quiet : ¬Announces acc pending)
    (held : Held accumulated accLen acc owned) (owns : m.Owns owned) {rounds : Nat}
    (enough : pending.flatten.length < rounds) :
    ∃ result m', recvLoop grants rounds accumulated accLen pending m = .ok (result, m') ∧
      Receives (WebSocket.recvLoop acc pending).message result m' := by
  induction rounds generalizing accumulated accLen acc owned m pending with
  | zero => exact absurd enough (Nat.not_lt_zero _)
  | succ rounds ih =>
    have normal : ∀ h read, readHeader pending = some (h, read) → h.payloadLen + 1 ≠ 2 ^ 64 :=
      fun h read header largest => quiet (.here header largest)
    rw [recvLoop]
    rcases frameStep_as held owns normal with ⟨read, handled⟩ | ⟨returns, owns', why⟩
    · generalize frameStep grants accumulated accLen pending m = run at handled ⊢
      cases handled with
      | null owns' why =>
        refine ⟨none, _, rfl, .null owns'.eq_nil ?_⟩
        exact why.imp (recvLoop_ends read) And.left
      | payload ends owns' =>
        exact ⟨_, _, rfl, .payload (recvLoop_ends read ends) owns'.eq_singleton⟩
      | goOn more fits held' owns' room same =>
        have fewer := WebSocket.readFrame_lt read
        rw [recvLoop_more read more]
        exact ih (fun announces => quiet (.later read more fits announces)) held' owns' (by omega)
    · rw [returns]
      exact ⟨none, _, rfl, .null owns'.eq_nil (why.imp recvLoop_none And.left)⟩

end Calls

/-- Receiving is safe exactly on the streams on which no frame that the call gets to announces
2⁶⁴ - 1 bytes. -/
theorem safe_iff_not_announces (pending : List Bytes) : Safe pending ↔ ¬Announces none pending := by
  constructor
  · intro safe announces
    obtain ⟨rounds, runs⟩ := safe fun _ _ => true
    obtain ⟨result, m, returns, -⟩ := runs rounds (Nat.le_refl _)
    exact recvLoop_of_announces (fun _ _ => rfl) announces .null Arena.Owns.empty (by decide)
      rounds _ returns
  · intro quiet grants
    refine ⟨pending.flatten.length + 1, fun more enough => ?_⟩
    exact recvLoop_receives quiet .null Arena.Owns.empty (Nat.lt_of_succ_le enough)

/-- A text frame whose header announces 2⁶⁴ - 1 bytes. -/
def largestFrame : List Bytes := [[0x81, 0x7f], List.replicate 8 0xff]

/-- Its terminator is written outside of the block, whose size has wrapped to zero. -/
theorem not_safe_largest :
    (∀ rounds, wsRecvFrame (fun _ _ => true) (rounds + 1) largestFrame = .error .fault) ∧
      ¬∀ pending, Safe pending := by
  have isLargest : (readHeader largestFrame).any (·.1.payloadLen + 1 = 2 ^ 64) = true := by
    decide +kernel
  obtain ⟨⟨h, read⟩, header, isLargest⟩ := (Option.any_eq_true _ _).1 isLargest
  have largest := of_decide_eq_true isLargest
  have faults (rounds : Nat) :
      wsRecvFrame (fun _ _ => true) (rounds + 1) largestFrame = .error .fault := by
    rw [wsRecvFrame, recvLoop, frameStep_largest (fun _ _ => rfl) Arena.Owns.empty (by decide)
      header largest]
    rfl
  refine ⟨faults, fun always => ?_⟩
  obtain ⟨rounds, runs⟩ := always largestFrame fun _ _ => true
  obtain ⟨result, m, returns, -⟩ := runs (rounds + 1) (Nat.le_succ rounds)
  rw [faults] at returns
  cases returns

end Dux.Runtime.WsMemory

import Dux.Runtime.Str

/-!
# Handles and the functions the standard library declares

The opaque handles of `src/runtime/net_http.c`, `json_rt.c` and `process_rt.c`,
with the strings they keep, and every runtime function whose result the
standard library declares as `str` or `list` (none is declared as `dict`).  A
dictionary of strings stands as the finite map that the runtime's dictionary
refines, newest entry first.
-/

namespace Dux.Runtime

/-- A dictionary of strings: names and heap addresses. -/
abbrev StrDict := List (Bytes × Nat)

/-- `DuxHttpResp`; `status` is not read by these functions. -/
structure HttpResp where
  statusText : Nat
  headers : StrDict
  body : Nat

/-- `DuxHttpServerReq`. -/
structure HttpServerReq where
  method : Nat
  path : Nat
  query : Nat
  headers : StrDict
  body : Nat

/-- `DuxProc`, as far as its captured output goes. -/
structure Proc where
  outBuf : Option Nat := none
  errBuf : Option Nat := none
  waited : Bool := false

/-- What an opaque `ptr` of the standard library points to. -/
inductive Handle
  | resp (r : HttpResp)
  | req (r : HttpServerReq)
  | json (fields : StrDict)
  | proc (p : Proc)

namespace Handle

def resp? : Handle → Option HttpResp
  | .resp r => some r
  | _ => none

def req? : Handle → Option HttpServerReq
  | .req r => some r
  | _ => none

def json? : Handle → Option StrDict
  | .json fields => some fields
  | _ => none

def proc? : Handle → Option Proc
  | .proc p => some p
  | _ => none

def strings : Handle → List Nat
  | .resp r => r.statusText :: r.body :: r.headers.map (·.2)
  | .req r => r.method :: r.path :: r.query :: r.body :: r.headers.map (·.2)
  | .json fields => fields.map (·.2)
  | .proc p => p.outBuf.toList ++ p.errBuf.toList

/-- The strings that freeing the handle releases. -/
def owned : Handle → List Nat
  | .resp r => [r.statusText, r.body]
  | .req r => [r.method, r.path, r.query, r.body]
  | .json _ => []
  | .proc _ => []

end Handle

/-- All handles made so far; a freed one leaves its place empty. -/
abbrev Handles := List (Option Handle)

/-- The handle a pointer points to, null included, if the program may still use
it. -/
def Handles.find {α : Type} (hs : Handles) (kind : Handle → Option α) :
    Option Nat → Option (Option α)
  | none => some none
  | some i => do
      let handle ← hs[i]?
      let live ← handle
      return some (← kind live)

/-! ## Accessors -/

/-- The accessors that return a field of their handle. -/
def fieldOf {α : Type} (h : Heap) (field : α → Nat) : Option α → Ref × Heap
  | none => duxrtStrNew h []
  | some r => (some (.heap (field r)), h)

/-- The accessors that return a string of their handle if there is one. -/
def keptOr (h : Heap) : Option Nat → Ref × Heap
  | none => duxrtStrNew h []
  | some a => (some (.heap a), h)

/-- The entry of a dictionary, if the dictionary and the name are there. -/
def entryOf {α : Type} (h : Heap) (dict : α → StrDict) (handle : Option α) (name : Ref) :
    Option Nat := do
  (dict (← handle)).lookup (h.bytes (← name))

def duxrtHttpRespStatusText (h : Heap) (resp : Option HttpResp) : Ref × Heap :=
  fieldOf h (·.statusText) resp

def duxrtHttpRespHeader (h : Heap) (resp : Option HttpResp) (name : Ref) : Ref × Heap :=
  keptOr h (entryOf h (·.headers) resp name)

def duxrtHttpRespBody (h : Heap) (resp : Option HttpResp) : Ref × Heap :=
  fieldOf h (·.body) resp

def duxrtHttpReqMethod (h : Heap) (req : Option HttpServerReq) : Ref × Heap :=
  fieldOf h (·.method) req

def duxrtHttpReqPath (h : Heap) (req : Option HttpServerReq) : Ref × Heap :=
  fieldOf h (·.path) req

def duxrtHttpReqQuery (h : Heap) (req : Option HttpServerReq) : Ref × Heap :=
  fieldOf h (·.query) req

def duxrtHttpReqHeader (h : Heap) (req : Option HttpServerReq) (name : Ref) : Ref × Heap :=
  keptOr h (entryOf h (·.headers) req name)

def duxrtHttpReqBody (h : Heap) (req : Option HttpServerReq) : Ref × Heap :=
  fieldOf h (·.body) req

def duxrtProcStdout (h : Heap) (proc : Option Proc) : Ref × Heap :=
  keptOr h (proc.bind (·.outBuf))

def duxrtProcStderr (h : Heap) (proc : Option Proc) : Ref × Heap :=
  keptOr h (proc.bind (·.errBuf))

/-- `duxrt_json_get_str`, the one accessor that retains. -/
def duxrtJsonGetStr (h : Heap) (handle : Option StrDict) (key : Ref) : Ref × Heap :=
  match entryOf h id handle key with
  | none => duxrtStrNew h []
  | some a => h.retain (some (.heap a))

/-! ## Making and freeing handles -/

/-- A new string that a handle keeps. -/
def keepNew (h : Heap) (src : Bytes) : Nat × Heap :=
  (h.objects.length, (duxrtStrNew h src).2)

/-- `duxrt_dict_set` of new strings, one after the other. -/
def setAll (h : Heap) (dict : StrDict) : List (Bytes × Bytes) → StrDict × Heap
  | [] => (dict, h)
  | (name, val) :: rest =>
      let (a, h) := keepNew h val
      setAll h ((name, a) :: dict) rest

/-- `parse_response` and `resp_new`, after the text has been taken apart. -/
def parseResponse (h : Heap) (statusText : Bytes) (headers : List (Bytes × Bytes))
    (body : Bytes) : Handle × Heap :=
  let (dict, h) := setAll h [] headers
  let (body, h) := keepNew h body
  let (statusText, h) := keepNew h statusText
  (.resp ⟨statusText, dict, body⟩, h)

/-- `duxrt_http_parse_request`, after the text has been taken apart. -/
def duxrtHttpParseRequest (h : Heap) (method path query : Bytes)
    (headers : List (Bytes × Bytes)) (body : Bytes) : Handle × Heap :=
  let (query, h) := keepNew h query
  let (method, h) := keepNew h method
  let (path, h) := keepNew h path
  let (dict, h) := setAll h [] headers
  let (body, h) := keepNew h body
  (.req ⟨method, path, query, dict, body⟩, h)

/-- `duxrt_json_parse`, after the text has been taken apart. -/
def duxrtJsonParse (h : Heap) (fields : List (Bytes × Bytes)) : Handle × Heap :=
  let (dict, h) := setAll h [] fields
  (.json dict, h)

/-- What one end of a process has written, if it was captured. -/
def readFdToStr (h : Heap) : Option Bytes → Option Nat × Heap
  | none => (none, h)
  | some out =>
      let (a, h) := keepNew h out
      (some a, h)

def duxrtProcWait (h : Heap) (p : Proc) (out err : Option Bytes) : Handle × Heap :=
  if p.waited then (.proc p, h)
  else
    let (outBuf, h) := readFdToStr h out
    let (errBuf, h) := readFdToStr h err
    (.proc ⟨outBuf, errBuf, true⟩, h)

def duxrtHttpRespFree (h : Heap) (r : HttpResp) : Heap :=
  let h := h.release (some (.heap r.statusText))
  h.release (some (.heap r.body))

def duxrtHttpReqFree (h : Heap) (r : HttpServerReq) : Heap :=
  let h := h.release (some (.heap r.method))
  let h := h.release (some (.heap r.path))
  let h := h.release (some (.heap r.query))
  h.release (some (.heap r.body))

/-- Free a handle: `duxrt_proc_free` leaves the captured output alone, and
nothing frees the handle of a JSON object. -/
def Handle.free (h : Heap) : Handle → Option Heap
  | .resp r => some (duxrtHttpRespFree h r)
  | .req r => some (duxrtHttpReqFree h r)
  | .proc _ => some h
  | .json _ => none

/-! ## Exported functions -/

/-- The functions that return a string they have just made. -/
inductive StrMaker
  | argsAt | bytesHex | bytesToStr | clockNowStr | dateFormat | dateIso | envFetch | envGet
  | fileRead | fileReadAllHandle | fileReadLineHandle | fsCwd | fsGetcwd | fsRealpath
  | httpFormatResponse | httpLastError | jsonStringify | processCapture | regexFind
  | sockLastError | sockLastSender | sockLocalAddr | sockPeerAddr | sockRecvStr
  | sockRecvfromStr | strChr | strConcat | strFromDouble | strFromInt | strIndex
  | strJoinList | strRepeat | strSlice | strToLower | strToUpper | strTrim | strTrimEnd
  | strTrimStart | strbufBuild | sysHostname | tlsLastError | tlsPeerCertSubject | tlsRecv
  | wsLastError | wsRecv

/-- The functions that return a list of strings they have just made. -/
inductive ListMaker
  | argsAll | envAll | fileReadLines | fsListDir | regexCaptures | regexFindAll | strSplit

/-- A call of a function whose result is declared as `str` or `list`.  What a
maker puts into its result is up to it; a handle is given by its place. -/
inductive Call
  | makeStr (fn : StrMaker) (data : Bytes)
  | makeList (fn : ListMaker) (items : List Bytes)
  | strReplace (s pat repl : Ref)
  | strReplaceAll (s pat repl : Ref)
  | regexReplace (valid : Bool) (made : Option Bytes) (text repl : Ref)
  | regexReplaceAll (valid : Bool) (made : Option Bytes) (text repl : Ref)
  | regexSplit (valid : Bool) (pieces : List Bytes) (text : Ref)
  | jsonGetStr (handle : Option Nat) (key : Ref)
  | httpRespStatusText (resp : Option Nat)
  | httpRespHeader (resp : Option Nat) (name : Ref)
  | httpRespBody (resp : Option Nat)
  | httpReqMethod (req : Option Nat)
  | httpReqPath (req : Option Nat)
  | httpReqQuery (req : Option Nat)
  | httpReqHeader (req : Option Nat) (name : Ref)
  | httpReqBody (req : Option Nat)
  | procStdout (proc : Option Nat)
  | procStderr (proc : Option Nat)

namespace Call

/-- The result of a call; `none` if it uses a handle that is not there. -/
def exec (hs : Handles) (h : Heap) : Call → Option (Ref × Heap)
  | .makeStr _ data => some (duxrtStrNew h data)
  | .makeList _ items => some (newStrList h items)
  | .strReplace s pat repl => some (duxrtStrReplace h s pat repl)
  | .strReplaceAll s pat repl => some (duxrtStrReplaceAll h s pat repl)
  | .regexReplace valid made text repl => some (duxrtRegexReplace h valid made text repl)
  | .regexReplaceAll valid made text repl => some (duxrtRegexReplaceAll h valid made text repl)
  | .regexSplit valid pieces text => some (duxrtRegexSplit h valid pieces text)
  | .jsonGetStr handle key => do return duxrtJsonGetStr h (← hs.find Handle.json? handle) key
  | .httpRespStatusText resp => do
      return duxrtHttpRespStatusText h (← hs.find Handle.resp? resp)
  | .httpRespHeader resp name => do
      return duxrtHttpRespHeader h (← hs.find Handle.resp? resp) name
  | .httpRespBody resp => do return duxrtHttpRespBody h (← hs.find Handle.resp? resp)
  | .httpReqMethod req => do return duxrtHttpReqMethod h (← hs.find Handle.req? req)
  | .httpReqPath req => do return duxrtHttpReqPath h (← hs.find Handle.req? req)
  | .httpReqQuery req => do return duxrtHttpReqQuery h (← hs.find Handle.req? req)
  | .httpReqHeader req name => do
      return duxrtHttpReqHeader h (← hs.find Handle.req? req) name
  | .httpReqBody req => do return duxrtHttpReqBody h (← hs.find Handle.req? req)
  | .procStdout proc => do return duxrtProcStdout h (← hs.find Handle.proc? proc)
  | .procStderr proc => do return duxrtProcStderr h (← hs.find Handle.proc? proc)

/-- The strings among the arguments. -/
def args : Call → List Ref
  | .makeStr _ _ | .makeList _ _ => []
  | .strReplace s pat repl | .strReplaceAll s pat repl => [s, pat, repl]
  | .regexReplace _ _ text repl | .regexReplaceAll _ _ text repl => [text, repl]
  | .regexSplit _ _ text => [text]
  | .jsonGetStr _ name | .httpRespHeader _ name | .httpReqHeader _ name => [name]
  | .httpRespStatusText _ | .httpRespBody _ | .httpReqMethod _ | .httpReqPath _
  | .httpReqQuery _ | .httpReqBody _ | .procStdout _ | .procStderr _ => []

/-- The call asks a handle for a string that the handle keeps, through an
accessor that does not retain it. -/
def Lends (hs : Handles) (h : Heap) : Call → Prop
  | .httpRespStatusText resp | .httpRespBody resp => resp.isSome
  | .httpReqMethod req | .httpReqPath req | .httpReqQuery req | .httpReqBody req => req.isSome
  | .httpRespHeader resp name =>
      ∃ r, hs.find Handle.resp? resp = some (some r) ∧
        ∃ n, name = some n ∧ h.bytes n ∈ r.headers.map (·.1)
  | .httpReqHeader req name =>
      ∃ r, hs.find Handle.req? req = some (some r) ∧
        ∃ n, name = some n ∧ h.bytes n ∈ r.headers.map (·.1)
  | .procStdout proc =>
      ∃ p, hs.find Handle.proc? proc = some (some p) ∧ p.outBuf.isSome
  | .procStderr proc =>
      ∃ p, hs.find Handle.proc? proc = some (some p) ∧ p.errBuf.isSome
  | _ => False

end Call

end Dux.Runtime

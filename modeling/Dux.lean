import Dux.Codegen.TypeIds
import Dux.Codegen.Unwinding
import Dux.Codegen.Destroy
import Dux.Codegen.Catch
import Dux.Codegen.Results
import Dux.Codegen.Lifetimes
import Dux.Codegen.Stable
import Dux.Codegen.Leaks
import Dux.Runtime.DictMap
import Dux.Runtime.DictGrowth
import Dux.Generics.Complete
import Dux.Codegen.LayoutOrder
import Dux.Codegen.Closures
import Dux.Codegen.Jumps
import Dux.Codegen.Statics
import Dux.Runtime.Pool
import Dux.Codegen.Async
import Dux.Codegen.WellTyped
import Dux.Codegen.Exhaustive
import Dux.Codegen.Payload
import Dux.Sema.Heritage
import Dux.Sema.Contracts
import Dux.Codegen.Namespaces
import Dux.Codegen.Linkage
import Dux.Driver.Compile
import Dux.Runtime.Json
import Dux.Runtime.HttpBoundary
import Dux.Runtime.HttpMemory
import Dux.Runtime.HttpReceive
import Dux.Sema.Awaits
import Dux.Sema.Consts
import Dux.Codegen.Searches
import Dux.Runtime.Achan
import Dux.Runtime.ThreadChan
import Dux.Runtime.PoolLibraries
import Dux.Runtime.ProcessCapture
import Dux.Runtime.Regex
import Dux.Runtime.Sends
import Dux.Runtime.WsConnection
import Dux.Runtime.WsHandshake
import Dux.Lexer.Sessions
import Dux.Codegen.Operators
import Dux.Generics.Ending
import Dux.Generics.Mangling
import Dux.Generics.Hierarchy
import Dux.Codegen.Ranges
import Dux.Runtime.ListRuns
import Dux.Runtime.Lists
import Dux.Codegen.ListLoops
import Dux.Codegen.Comparisons
import Dux.Codegen.Conversions
import Dux.Codegen.Switches
import Dux.Codegen.Hygiene
import Dux.Codegen.LambdaReturns
import Dux.Codegen.LiteralContexts
import Dux.Lexer.Literals
import Dux.Lexer.Nesting
import Dux.Lexer.LineEnds
import Dux.Runtime.StrTotals
import Dux.Runtime.StrNumbers
import Dux.Runtime.ByteRuns
import Dux.Runtime.JsonSafety
import Dux.Runtime.WsSafety
import Dux.Stdlib.Path
import Dux.Codegen.Rendering
import Dux.Bootstrap.Termination
import Dux.Logic.Base64
import Dux.Logic.SecureHash
import Dux.Runtime.AcceptDigest
import Dux.Runtime.Random
import Dux.Logic.FileTree
import Dux.Runtime.MakeDirs
import Dux.Logic.Files
import Dux.Runtime.FileCopy
import Dux.Runtime.AsyncLoop
import Dux.Runtime.Futures
import Dux.Sema.Layers
import Dux.Runtime.TextFiles
import Dux.Repl
import Dux.Lexer.Semicolons
import Dux.Stdlib.Server
import Dux.Sema.Subtypes

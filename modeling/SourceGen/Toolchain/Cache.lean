import SourceGen.Toolchain.Request

/-!
# Cached toolchains

A toolchain that remembers what it compiled. Only successes are remembered, by a key of the request.
The keys are a parameter: a short hash serves as well as a whole fingerprint, as long as it tells
the requests apart.

## Main definitions

* `CachedToolchain`: a toolchain with what it remembers.
* `CachedToolchain.compile`: the answer to a request, and what is remembered after it.
-/

namespace SourceGen

/-- A toolchain with the compilations that it remembers. -/
structure CachedToolchain (κ : Type := Fingerprint) where
  inner : Toolchain
  /-- What requests are told apart by. -/
  key : CompileRequest → κ := by exact CompileRequest.fingerprint
  entries : List (κ × CompileOutput) := []
  /-- The requests that the inner toolchain was asked, the newest first. -/
  asked : List CompileRequest := []

namespace CachedToolchain

variable {κ : Type}

/-- The name of the inner toolchain. -/
def name (c : CachedToolchain κ) : String :=
  c.inner.name

/-- The number of remembered compilations. -/
def size (c : CachedToolchain κ) : Nat :=
  c.entries.length

/-- Nothing is remembered. -/
def isEmpty (c : CachedToolchain κ) : Bool :=
  c.entries.isEmpty

/-- The number of requests that the inner toolchain was asked. -/
def calls (c : CachedToolchain κ) : Nat :=
  c.asked.length

variable [DecidableEq κ]

/-- The remembered answer to a request. -/
def remembered? (c : CachedToolchain κ) (request : CompileRequest) : Option CompileOutput :=
  c.entries.lookup (c.key request)

/-- Notes what the inner toolchain answered to a request. -/
def note (c : CachedToolchain κ) (request : CompileRequest) :
    Except ToolchainError CompileOutput → CachedToolchain κ
  | .ok output =>
    { c with
      entries := (c.key request, output) :: c.entries
      asked := request :: c.asked }
  | .error _ => { c with asked := request :: c.asked }

/-- The answer to a request: the remembered one, else that of the inner toolchain. -/
def compile (c : CachedToolchain κ) (request : CompileRequest) :
    Except ToolchainError CompileOutput × CachedToolchain κ :=
  match c.remembered? request with
  | some output => (.ok output, c)
  | none =>
    let answer := c.inner.compile request
    (answer, c.note request answer)

/-- The answers to some requests in order, and what is remembered after them. -/
def compileAll (c : CachedToolchain κ) :
    List CompileRequest → List (Except ToolchainError CompileOutput) × CachedToolchain κ
  | [] => ([], c)
  | r :: rs =>
    let (answer, c) := c.compile r
    let (answers, c) := c.compileAll rs
    (answer :: answers, c)

end CachedToolchain

end SourceGen

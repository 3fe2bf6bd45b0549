/-!
# Resolvers

A resolver knows the full spelling of types that come from outside the unit. Any function can be
one; the ones that come with the library are tables.

## Main definitions

* `TypeResolver`: knows the full spellings of some names.
* `Resolver`: a table of names and spellings.
* `Resolver.dotnet`: well-known types of the .NET class library.
-/

namespace SourceGen

/-- Knows the full spellings of some type names. -/
structure TypeResolver where
  /-- The full spelling of a name. -/
  resolve : String → Option String

/-- A table of type names with their full spellings; the first entry for a name counts. -/
structure Resolver where
  entries : List (String × String) := []

namespace Resolver

/-- The resolver that knows nothing. -/
def none : Resolver :=
  {}

/-- The full spelling of a name. -/
def resolve (r : Resolver) (name : String) : Option String :=
  r.entries.lookup name

instance : Coe Resolver TypeResolver :=
  ⟨fun r => ⟨r.resolve⟩⟩

/-- Well-known types of the .NET class library. -/
def dotnet : Resolver where
  entries :=
    [("StringBuilder", "System.Text.StringBuilder"),
     ("Encoding", "System.Text.Encoding"),
     ("Regex", "System.Text.RegularExpressions.Regex"),
     ("DateTime", "System.DateTime"),
     ("TimeSpan", "System.TimeSpan"),
     ("Guid", "System.Guid"),
     ("Uri", "System.Uri"),
     ("Random", "System.Random"),
     ("Exception", "System.Exception"),
     ("Console", "System.Console"),
     ("Math", "System.Math"),
     ("Lazy", "System.Lazy"),
     ("Stopwatch", "System.Diagnostics.Stopwatch"),
     ("File", "System.IO.File"),
     ("Path", "System.IO.Path"),
     ("Stream", "System.IO.Stream"),
     ("StreamReader", "System.IO.StreamReader"),
     ("StreamWriter", "System.IO.StreamWriter"),
     ("HttpClient", "System.Net.Http.HttpClient"),
     ("CancellationToken", "System.Threading.CancellationToken"),
     ("Queue", "System.Collections.Generic.Queue"),
     ("Stack", "System.Collections.Generic.Stack"),
     ("LinkedList", "System.Collections.Generic.LinkedList"),
     ("KeyValuePair", "System.Collections.Generic.KeyValuePair"),
     ("IEnumerable", "System.Collections.Generic.IEnumerable")]

end Resolver

end SourceGen

/-
**Which files are listed.**

A policy says how deep a scan goes and what it leaves out; a filter is a policy whose patterns have
been read.

Main definitions:

* `ScanPolicy`, `ScanFilter` — a policy, and a filter made from it;
* `ScanFilter.ofPolicy` — reads the patterns of a policy;
* `ScanFilter.allowsDirectory`, `ScanFilter.allowsFile` — what the filter lets through.
-/

import JsonShelf.Glob.Parser
import JsonShelf.Paths.DocPath

set_option autoImplicit false

namespace JsonShelf

/-- The names of build output, caches and editor state, which are left out at every level. -/
def ignoredNames : List String :=
  ["node_modules", ".next", ".git", "dist", "build", ".nuxt", ".output", "coverage", ".nyc_output",
    ".tmp", ".temp", ".cache", ".vscode", ".idea", "*.log"]

/-- The names of tool configuration, which is left out at the top. -/
def toolConfigNames : List String :=
  ["package.json", "package-lock.json", "tsconfig.json", "jsconfig.json", "tailwind.config.json",
    "next.config.json", "vite.config.json", "webpack.config.json", "babel.config.json",
    "eslint.config.json", ".eslintrc.json", "prettier.config.json", ".prettierrc.json",
    "jest.config.json", "cypress.config.json", "vercel.json", "netlify.json"]

/-- How deep a scan goes and what it leaves out. -/
structure ScanPolicy where
  /-- How many levels of directories below the data directory are entered. -/
  maxDepth : Nat
  /-- Patterns for names and for whole paths. -/
  ignore : List String
  /-- Is tool configuration at the top left out? -/
  ignoreToolConfig : Bool
  deriving DecidableEq, Repr

/-- Three levels, nothing more to ignore, and no tool configuration. -/
def ScanPolicy.standard : ScanPolicy := ⟨3, [], true⟩

/-- A policy whose patterns have been read. -/
structure ScanFilter where
  maxDepth : Nat
  /-- The patterns for names. -/
  names : List Glob.Pattern
  /-- The patterns for whole paths. -/
  paths : List Glob.Pattern
  ignoreToolConfig : Bool

namespace ScanFilter

/-- The filter of a policy, if its patterns can be read. -/
def ofPolicy (policy : ScanPolicy) : Except Glob.PatternError ScanFilter := do
  let names ← (ignoredNames ++ policy.ignore).mapM Glob.Pattern.parse
  let paths ← policy.ignore.mapM Glob.Pattern.parse
  return ⟨policy.maxDepth, names, paths, policy.ignoreToolConfig⟩

/-- Is a name left out? -/
def ignoresName (filter : ScanFilter) (name : String) : Bool :=
  filter.names.any (·.isMatch name)

/-- Is a whole path left out? -/
def ignoresPath (filter : ScanFilter) (path : DocPath) : Bool :=
  filter.paths.any (·.isMatch path.text)

/-- May a directory of this name be entered? -/
def allowsDirectoryName (filter : ScanFilter) (name : String) : Bool :=
  name.toList.head? != some '.' && !filter.ignoresName name

/-- May the directory be entered? -/
def allowsDirectory (filter : ScanFilter) (path : DocPath) : Bool :=
  let names := Text.split (· == '/') path.text
  names.length ≤ filter.maxDepth && names.all filter.allowsDirectoryName &&
    !filter.ignoresPath path

/-- Does the file belong to the listing, if it is a document? -/
def allowsFile (filter : ScanFilter) (path : DocPath) : Bool :=
  let names := Text.split (· == '/') path.text
  let directories := names.dropLast
  let name := path.fileName
  path.hasJsonExtension && !path.escapes &&
    !(directories.isEmpty && filter.ignoreToolConfig && toolConfigNames.contains name) &&
    directories.length ≤ filter.maxDepth && directories.all filter.allowsDirectoryName &&
    !filter.ignoresName name && !filter.ignoresPath path

end ScanFilter

end JsonShelf

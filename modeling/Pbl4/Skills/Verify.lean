/-
This file models the checks of `.agents/scripts/verify_skills.py`: the active skills, the
vendored files, the Markdown files and the scan. What lies outside the tree is a `Host`: the
files elsewhere, the paths the operating system refuses to look at, and the results of
`json` and `hashlib`.
-/

import Mathlib.Data.List.Sort
import Pbl4.Python.Loop
import Pbl4.Python.Paths
import Pbl4.Python.Url
import Pbl4.Skills.Patterns
import Pbl4.Skills.Tree

namespace Pbl4.Skills

open Python

/-! ### The host -/

/-- A JSON value. -/
inductive Json where
  | null
  | bool (value : Bool)
  | number (digits : String)
  | text (value : String)
  | array (items : List Json)
  | object (fields : List (String × Json))

/-- `value[key]` -/
def Json.get (key : String) : Json → Except PyError Json
  | .object fields =>
      match fields.lookup key with
      | some value => .ok value
      | none => .error .keyError
  | _ => .error .typeError

/-- A value where only a string will do. -/
def Json.asText : Json → Except PyError String
  | .text value => .ok value
  | _ => .error .typeError

/-- The string under a key, where only a string will do. -/
def Json.getText (key : String) (value : Json) : Except PyError String :=
  (value.get key).bind Json.asText

/-- `for item in value` -/
def Json.iterate : Json → Except PyError (List Json)
  | .array items => .ok items
  | .object fields => .ok (fields.map fun field => .text field.1)
  | .text value => .ok (value.toList.map fun char => .text (String.singleton char))
  | _ => .error .typeError

/-- `value == text` -/
def Json.isText (text : String) : Json → Bool
  | .text value => value = text
  | _ => false

/-- What the script depends on besides the tree. `root` is `ROOT`; `place` is where a new file
of the root is enumerated. -/
structure Host where
  root : List String
  named : ∀ part ∈ root, IsName part
  outside : List String → Option Entry
  refuses : List String → Bool
  place : String → Nat
  loads : List Char → Except PyError Json
  sha256 : List UInt8 → String
  sha1 : List UInt8 → String

/-- The entry at a resolved absolute path. -/
def lookup (host : Host) (tree : Tree) (path : List String) : Option Entry :=
  if path.isPrefixOf host.root then some .directory
  else if host.root.isPrefixOf path then tree.find (path.drop host.root.length)
  else host.outside path

/-- A path with a null character. -/
def hasNull (path : List String) : Bool := path.any fun part => '\u0000' ∈ part.toList

/-- `path.resolve().exists()` -/
def resolvesToEntry (host : Host) (tree : Tree) (path : List String) : Except PyError Bool :=
  if hasNull path then .error .valueError
  else if host.refuses (resolvePath path) then .error .osError
  else .ok (lookup host tree (resolvePath path)).isSome

/-- The entry at a path as it is written: what stands before a part has to be a directory. -/
def stat (host : Host) (tree : Tree) (path : List String) : Option Entry :=
  if (List.range path.length).all fun count =>
      (lookup host tree (resolvePath (path.take count))).any Entry.isDirectory then
    lookup host tree (resolvePath path)
  else none

/-- The content of `path` if `path.is_file()`. -/
def readFile (host : Host) (tree : Tree) (path : List String) :
    Except PyError (Option Content) :=
  if hasNull path then .ok none
  else if host.refuses path then .error .osError
  else
    match stat host tree path with
    | some (.file content) => .ok (some content)
    | _ => .ok none

/-! ### Active skills -/

/-- `CORE` -/
def core : List String := [
  "architecture-guard", "contract-change", "protocol-change", "distributed-debug",
  "distributed-verification", "doc-sync", "release-gate", "pbl4-ui-direction"]

/-- `VENDORS` -/
def vendors : List String := [
  "impeccable", "web-design-guidelines", "react-best-practices", "webapp-testing", "fastapi",
  "verification-before-completion"]

/-- `CORE | {"vendor-" + name for name in VENDORS}` -/
def expected : List String := core ++ vendors.map ("vendor-" ++ ·)

/-- The paths `skills/*/SKILL.md`. -/
def isActivePath : List String → Bool
  | ["skills", _, "SKILL.md"] => true
  | _ => false

/-- `list((ROOT / "skills").glob("*/SKILL.md"))` -/
def Tree.active (tree : Tree) : List (List String × Entry) :=
  tree.entries.filter fun entry => isActivePath entry.1

/-- `ROOT.rglob(name)` -/
def Tree.rglobName (tree : Tree) (name : String) : List (List String × Entry) :=
  tree.entries.filter fun entry => entry.1.getLast? = some name

/-- `p.parent.name` -/
def parentName (path : List String) : String := path.dropLast.getLast?.getD ""

/-- Two lists with the same elements. -/
def sameSet {Item : Type} [DecidableEq Item] (first second : List Item) : Bool :=
  first.all (· ∈ second) && second.all (· ∈ first)

theorem sameSet_iff {Item : Type} [DecidableEq Item] {first second : List Item} :
    sameSet first second = true ↔ ∀ item, item ∈ first ↔ item ∈ second := by
  simp only [sameSet, Bool.and_eq_true, List.all_eq_true, decide_eq_true_eq]
  constructor
  · rintro ⟨forth, back⟩ item
    exact ⟨forth item, back item⟩
  · exact fun same => ⟨fun item => (same item).mp, fun item => (same item).mpr⟩

/-- The errors about which skills there are. -/
def discoveryErrors (tree : Tree) : List String :=
  (if sameSet (tree.active.map fun entry => parentName entry.1) expected then []
    else ["Unexpected or missing active skills"]) ++
  (if sameSet ((tree.rglobName "SKILL.md").map Prod.fst) (tree.active.map Prod.fst) then []
    else ["Unintended recursive SKILL.md discovery"])

/-- The errors of one active skill. -/
def skillErrors (host : Host) (skill : List String × Entry) : Except PyError (List String) := do
  let text ← skill.2.readText
  let front := frontMatter text
  let p := strPath (host.root ++ skill.1)
  return (if front.any fun group => namesSkill group (parentName skill.1) then []
      else [s!"Invalid skill name/frontmatter: {p}"]) ++
    (if front.any (occursIn "description:".toList) then [] else [s!"Missing description: {p}"])

/-! ### Vendored files -/

/-- What the loops over the manifest record. -/
inductive ManifestNote where
  | declared (path : List String)
  | error (message : String)

/-- `re.fullmatch(r"[0-9a-f]{40}", text)` -/
def isPinned (text : String) : Bool :=
  text.length = 40 && text.toList.all fun char =>
    char.isDigit || ('a' ≤ char && char ≤ 'f')

/-- `b"blob " + str(len(data)).encode() + b"\0" + data` -/
def gitBlob (data : List UInt8) : List UInt8 :=
  ("blob " ++ toString data.length ++ "\u0000").toList.flatMap String.utf8EncodeChar ++ data

/-- An error unless a condition holds. -/
def ManifestNote.unless (holds : Bool) (message : String) : List ManifestNote :=
  if holds then [] else [.error message]

/-- The checks of a vendored file that is there. -/
def contentNotes (host : Host) (item entry : Json) (p : List String) (data : List UInt8) :
    Except PyError (List ManifestNote) := do
  let sha256 ← entry.get "sha256"
  let blob ← entry.get "git_blob_sha"
  let repo ← item.getText "repo"
  let sha ← item.getText "sha"
  let url ← entry.get "url"
  let upstreamPath ← entry.getText "upstream_path"
  let name := p.getLast?.getD ""
  return ManifestNote.unless (sha256.isText (host.sha256 data))
      ("SHA256 mismatch: " ++ strPath p) ++
    ManifestNote.unless (blob.isText (host.sha1 (gitBlob data)))
      ("Git blob mismatch: " ++ strPath p) ++
    ManifestNote.unless
      (url.isText ("https://raw.githubusercontent.com/" ++ repo ++ "/" ++ sha ++ "/" ++
        upstreamPath))
      ("Non-pinned provenance URL: " ++ strPath p) ++
    ManifestNote.unless
      (name ∉ ["SKILL.md", "AGENTS.md", "openai.yaml"] && suffix name ∈ [".md", ".txt", ""])
      ("Active/executable-looking vendor file: " ++ strPath p)

/-- The body of `for entry in item["files"]`. -/
def fileNotes (host : Host) (tree : Tree) (item entry : Json) :
    Except PyError (List ManifestNote) := do
  let localPath ← entry.getText "local_path"
  let p := joinPath host.root localPath.toList
  let content ← readFile host tree p
  match content with
  | none => return [.declared p, .error ("Missing vendor file: " ++ strPath p)]
  | some content =>
      let notes ← contentNotes host item entry p content.bytes
      return .declared p :: notes

/-- The check of a pinned commit. -/
def pinNotes (item : Json) (sha : String) : Except PyError (List ManifestNote) :=
  if isPinned sha then .ok []
  else (item.getText "name").map fun name => [.error ("Invalid pinned SHA: " ++ name)]

/-- The body of `for item in manifest["snapshots"]`. -/
def snapshotNotes (host : Host) (tree : Tree) (item : Json) :
    Except PyError (List ManifestNote) := do
  let sha ← item.getText "sha"
  let pinned ← pinNotes item sha
  let files ← (item.get "files").bind Json.iterate
  let notes ← collect (fileNotes host tree item) files
  return pinned ++ notes

/-- `manifest["snapshots"]`, of the parsed manifest. -/
def snapshots (host : Host) (tree : Tree) : Except PyError (List Json) := do
  let entry ← match tree.find ["VENDOR_MANIFEST.json"] with
    | some entry => .ok entry
    | none => .error .fileNotFoundError
  let text ← entry.readText
  let manifest ← host.loads text
  (manifest.get "snapshots").bind Json.iterate

/-- The loops over the manifest. -/
def manifestNotes (host : Host) (tree : Tree) : Except PyError (List ManifestNote) :=
  (snapshots host tree).bind (collect (snapshotNotes host tree))

/-- The paths the manifest declares. -/
def declared (notes : List ManifestNote) : List (List String) :=
  notes.filterMap fun note =>
    match note with
    | .declared path => some path
    | .error _ => none

/-- The errors among the notes. -/
def manifestErrors (notes : List ManifestNote) : List String :=
  notes.filterMap fun note =>
    match note with
    | .declared _ => none
    | .error message => some message

/-- The paths below `vendor`. -/
def isVendored : List String → Bool
  | "vendor" :: _ :: _ => true
  | _ => false

/-- `{p for p in (ROOT / "vendor").rglob("*") if p.is_file()}` -/
def Tree.actual (tree : Tree) : List (List String × Entry) :=
  tree.entries.filter fun entry => isVendored entry.1 && !entry.2.isDirectory

/-- The error of an inventory that is not the declared one. -/
def inventoryErrors (host : Host) (tree : Tree) (notes : List ManifestNote) : List String :=
  if sameSet (tree.actual.map fun entry => host.root ++ entry.1) (declared notes) then []
  else ["Vendor manifest inventory differs from disk"]

/-! ### Markdown files -/

/-- What the loop over the Markdown files records. -/
inductive MarkdownNote where
  | error (message : String)
  | exclusion (path : List String) (target : List Char)

/-- Three backticks. -/
def fence : List Char := ['`', '`', '`']

/-- `target.strip().strip("<>").split("#", 1)[0]` -/
def cleanTarget (group : List Char) : List Char :=
  (stripBy (fun char => char = '<' || char = '>') (stripBy isSpace group)).takeWhile (· ≠ '#')

theorem cleanTarget_subset (group : List Char) : cleanTarget group ⊆ group := by
  intro char member
  have inside := (List.takeWhile_sublist _).subset member
  exact stripBy_subset _ _ (stripBy_subset _ _ inside)

/-- The path a target leads to from a file. -/
def targetPath (host : Host) (path : List String) (target : List Char) : List String :=
  joinPath (host.root ++ path.dropLast) (unquote target)

/-- What is recorded of a link that leads nowhere. -/
def brokenLink (path : List String) (target : List Char) : MarkdownNote :=
  if isVendored path then .exclusion path target
  else .error s!"Broken enabled link: {String.ofList (posix path)} -> {String.ofList target}"

/-- The body of `for target in LINK.findall(text)`. -/
def linkNotes (host : Host) (tree : Tree) (path : List String) (group : List Char) :
    Except PyError (List MarkdownNote) :=
  let target := cleanTarget group
  if target = [] ∨ hasScheme target = true then .ok []
  else (resolvesToEntry host tree (targetPath host path target)).map fun found =>
    if found then [] else [brokenLink path target]

/-- The error of a file with an open fence; vendored files may have one. -/
def fenceNotes (host : Host) (path : List String) (text : List Char) : List MarkdownNote :=
  if isVendored path = false ∧ count fence text % 2 = 1 then
    [.error ("Unbalanced fenced block: " ++ strPath (host.root ++ path))]
  else []

/-- `ROOT.rglob("*.md")` -/
def Tree.markdown (tree : Tree) : List (List String × Entry) :=
  tree.entries.filter fun entry => entry.1.getLast?.any (endswith · ".md")

/-- The body of `for p in ROOT.rglob("*.md")`. -/
def markdownNotes (host : Host) (tree : Tree) (file : List String × Entry) :
    Except PyError (List MarkdownNote) := do
  let text ← file.2.readText
  let notes ← collect (linkNotes host tree file.1) (findLinks text)
  return fenceNotes host file.1 text ++ notes

/-- The errors among the notes. -/
def markdownErrors (notes : List MarkdownNote) : List String :=
  notes.filterMap fun note =>
    match note with
    | .error message => some message
    | .exclusion _ _ => none

theorem markdownErrors_eq_nil {notes : List MarkdownNote} :
    markdownErrors notes = [] ↔ ∀ message, MarkdownNote.error message ∉ notes := by
  rw [markdownErrors, List.filterMap_eq_nil_iff]
  constructor
  · exact fun none message member => absurd (none _ member) (by simp)
  · intro clean note member
    cases note with
    | error message => exact absurd member (clean message)
    | exclusion path target => rfl

/-- `exclusions` -/
def exclusions (notes : List MarkdownNote) : List (List String × List Char) :=
  notes.filterMap fun note =>
    match note with
    | .error _ => none
    | .exclusion path target => some (path, target)

/-- Only links of vendored files are excluded. -/
theorem isVendored_of_mem_markdownNotes {host : Host} {tree : Tree}
    {file : List String × Entry} {notes : List MarkdownNote}
    (ran : markdownNotes host tree file = .ok notes) {path : List String} {target : List Char}
    (member : MarkdownNote.exclusion path target ∈ notes) : isVendored file.1 = true := by
  obtain ⟨text, _, ran⟩ := bind_eq_ok.mp ran
  obtain ⟨links, collected, same⟩ := bind_eq_ok.mp ran
  obtain rfl := Except.ok.inj same
  rcases List.mem_append.mp member with inFence | inLinks
  · unfold fenceNotes at inFence
    split at inFence
    · exact absurd (List.mem_singleton.mp inFence) (by simp)
    · exact absurd inFence List.not_mem_nil
  · obtain ⟨group, _, found, visited, inside⟩ := exists_of_mem_collect collected inLinks
    unfold linkNotes at visited
    simp only at visited
    split at visited
    · obtain rfl := Except.ok.inj visited
      exact absurd inside List.not_mem_nil
    · obtain ⟨there, _, rfl⟩ := map_eq_ok.mp visited
      cases there with
      | true => exact absurd inside List.not_mem_nil
      | false =>
        have same := List.mem_singleton.mp inside
        unfold brokenLink at same
        split at same
        · assumption
        · cases same

/-! ### The scan -/

/-- How a matched line is classified. -/
inductive Classification where
  | historicalReferenceDisabled
  | localPolicyOrScopedContext

/-- The text of a classification. -/
def Classification.text : Classification → String
  | .historicalReferenceDisabled => "HISTORICAL_REFERENCE_DISABLED"
  | .localPolicyOrScopedContext => "LOCAL_POLICY_OR_SCOPED_CONTEXT"

/-- A matched line. -/
structure Finding where
  path : List String
  number : Nat
  classification : Classification
  line : List Char

/-- `sorted(actual | set(active))`: no path is both vendored and active. -/
def Tree.scanned (tree : Tree) : List (List String × Entry) :=
  (tree.actual ++ tree.active).insertionSort fun first second => pathLe first.1 second.1 = true

/-- The matched lines of a text. -/
def findingsOf (path : List String) (text : List Char) : List Finding :=
  let classification : Classification :=
    if isVendored path then .historicalReferenceDisabled else .localPolicyOrScopedContext
  ((splitlines text).zipIdx 1).filterMap fun numbered =>
    if scanSearch numbered.1 then some ⟨path, numbered.2, classification, numbered.1⟩ else none

/-- The body of `for p in sorted(actual | set(active))`. -/
def fileFindings (file : List String × Entry) : Except PyError (List Finding) :=
  file.2.readText.map (findingsOf file.1)

/-! ### All checks -/

/-- What the checks establish before anything is written. -/
structure Verification where
  errors : List String
  excluded : List (List String × List Char)
  findings : List Finding

/-- The checks, in order. -/
def verify (host : Host) (tree : Tree) : Except PyError Verification := do
  let skills ← collect (skillErrors host) tree.active
  let manifest ← manifestNotes host tree
  let markdown ← collect (markdownNotes host tree) tree.markdown
  let findings ← collect fileFindings tree.scanned
  return {
    errors := discoveryErrors tree ++ skills ++ manifestErrors manifest ++
      inventoryErrors host tree manifest ++ markdownErrors markdown
    excluded := exclusions markdown
    findings := findings }

end Pbl4.Skills

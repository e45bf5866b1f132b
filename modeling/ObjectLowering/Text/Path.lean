/-!
# ObjectLowering.Text.Path

Source and output paths, with `/` between directories.

* `stripExtension`: the path without its last extension; a dot in a directory name is no extension.
* `stem`: the file name without directories and extension.
* `parent`: the directory part, empty for a bare file name.

All three look at the path from its end.
-/

namespace ObjectLowering.Text.Path

/-- The characters after the last `/`, all of them if there is none. -/
def lastSegment (path : List Char) : List Char :=
  (path.reverse.takeWhile (· ≠ '/')).reverse

/-- The characters before the last `/`, none if there is none. -/
def beforeLastSegment (path : List Char) : List Char :=
  ((path.reverse.dropWhile (· ≠ '/')).drop 1).reverse

/-- The characters before the last dot, if no `/` follows it. -/
def withoutExtension (path : List Char) : List Char :=
  match path.reverse.dropWhile (fun c => c ≠ '.' ∧ c ≠ '/') with
  | '.' :: front => front.reverse
  | _ => path

/-- `com/foo/A.src` without its extension is `com/foo/A`. -/
def stripExtension (path : String) : String :=
  String.ofList (withoutExtension path.toList)

/-- The stem of `com/foo/A.src` is `A`. -/
def stem (path : String) : String :=
  String.ofList (lastSegment (withoutExtension path.toList))

/-- The parent of `com/foo/A.src` is `com/foo`. -/
def parent (path : String) : String :=
  String.ofList (beforeLastSegment path.toList)

example : stripExtension "com/foo/A.b.src" = "com/foo/A.b" := by decide
example : stripExtension "a.b/c" = "a.b/c" ∧ stem "a.b/c" = "c" := by decide
example : parent "com/foo/A" = "com/foo" ∧ parent "A" = "" := by decide

end ObjectLowering.Text.Path

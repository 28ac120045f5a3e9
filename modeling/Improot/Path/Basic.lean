import Mathlib.Data.List.Basic

/-!
# Paths as C strings

The string functions of `path/path.c` and `path/canon.c` on which the translation of paths rests:
joining, comparing, rebasing and chopping.  A C string is the list of its characters before the
terminating NUL, so that reading at the length of a string (`none` here) reads that NUL.
-/

namespace Improot

abbrev CString := List Char

def pathMax : Nat := 4096

def nameMax : Nat := 255

def maxSymlinks : Nat := 20

inductive Errno where
  | eperm | enoent | e2big | eagain | enomem | eacces | efault | eexist | enotdir | einval
  | efbig | enospc | erange | enametoolong | eloop | enomsg | eidrm | eintr | ebadf | enosys | eio
  deriving DecidableEq, Repr

namespace Path

/-! ## Joining -/

/-- One turn of the loop of `join_paths`: append `path`, with exactly one separator in between
when `result` is not empty. -/
def joinPath (result path : CString) : Except Errno CString :=
  if result ≠ [] ∧ result.getLast? ≠ some '/' ∧ path.head? ≠ some '/' then
    if result.length + path.length + 1 + 1 ≥ pathMax then .error .enametoolong
    else .ok (result ++ '/' :: path)
  else if result ≠ [] ∧ result.getLast? = some '/' ∧ path.head? = some '/' then
    if result.length + path.length - 1 + 1 ≥ pathMax then .error .enametoolong
    else .ok (result ++ path.tail)
  else
    if result.length + path.length + 1 ≥ pathMax then .error .enametoolong
    else .ok (result ++ path)

/-- `join_paths`: the concatenation of several paths, a `NULL` one (`none`) being skipped. -/
def joinPaths (paths : List (Option CString)) : Except Errno CString :=
  paths.foldlM (fun result path =>
    match path with
    | none => .ok result
    | some path => joinPath result path) []

/-! ## Comparing -/

inductive Comparison where
  | pathsAreEqual | path1IsPrefix | path2IsPrefix | pathsAreNotComparable
  deriving DecidableEq, Repr

def chompedLength (path : CString) (length : Nat) : Nat :=
  if path[length - 1]? = some '/' then length - 1 else length

/-- `compare_paths2`: compare `path1` with `path2`, which are respectively `length1` and `length2`
long. -/
def comparePaths2 (path1 : CString) (length1 : Nat) (path2 : CString) (length2 : Nat) :
    Comparison :=
  if length1 = 0 ∨ length2 = 0 then .pathsAreNotComparable
  else
    let length1 := chompedLength path1 length1
    let length2 := chompedLength path2 length2
    let lengthMin := if length1 < length2 then length1 else length2
    -- `none` is the terminating NUL
    let sentinel := if length1 < length2 then path2[lengthMin]? else path1[lengthMin]?
    if sentinel ≠ some '/' ∧ sentinel ≠ none then .pathsAreNotComparable
    else if path1.take lengthMin ≠ path2.take lengthMin then .pathsAreNotComparable
    else if length1 = length2 then .pathsAreEqual
    else if length1 < length2 then .path1IsPrefix
    else .path2IsPrefix

def comparePaths (path1 path2 : CString) : Comparison :=
  comparePaths2 path1 path1.length path2 path2.length

/-! ## Rebasing and chopping -/

/-- `substitute_path_prefix`: substitute the first `oldPrefixLength` bytes of `path` with
`newPrefix`.  The first component is the value returned, the second one what the buffer holds
afterwards. -/
def substitutePathPrefix (path : CString) (oldPrefixLength : Nat) (newPrefix : CString)
    (newPrefixLength : Nat) : Except Errno Nat × CString :=
  if newPrefixLength = 1 then
    -- "/foo" -> "/": substitute "/foo/bin" with "/bin", not "//bin"
    if path.length - oldPrefixLength ≠ 0 then
      (.ok (path.length - oldPrefixLength), path.drop oldPrefixLength)
    else (.ok 1, ['/'])
  else if oldPrefixLength = 1 then
    -- "/" -> "/foo": substitute "/bin" with "/foo/bin", not "/foobin"
    if newPrefixLength + path.length ≥ pathMax then (.error .enametoolong, path)
    else if path.length > 1 then
      (.ok (newPrefixLength + path.length), newPrefix.take newPrefixLength ++ path)
    else (.ok newPrefixLength, newPrefix.take newPrefixLength)
  else
    if path.length - oldPrefixLength + newPrefixLength ≥ pathMax then (.error .enametoolong, path)
    else
      (.ok (path.length - oldPrefixLength + newPrefixLength),
        newPrefix.take newPrefixLength ++ path.drop oldPrefixLength)

/-- `chop_finality`: remove the trailing "/" or "/.".  The test is on the last character only. -/
def chopFinality (path : CString) : CString :=
  if path.getLast? = some '.' then
    if path.length = 2 then path.take 1 else path.take (path.length - 2)
  else if path.getLast? = some '/' then
    if path.length > 1 then path.take (path.length - 1) else path
  else path

end Path

end Improot

import Spectrum.Errno
import Spectrum.Path

/-!
# `documents.rs`

`share_file` makes one file visible to the guest: it opens the file's directory and asks the
document portal to export the file from there, under a fresh document id. What the system answers
is given by an `Answers`; the result comes with the calls made to the document portal.

The two `unwrap`s on the path are panics here. **They are reached by the empty path**, which does
not exist and has no parent, and by a path without a final component in a directory that can be
opened.
-/

set_option autoImplicit false

namespace Spectrum.Portal

open Bytes

/-- How a function ends that does not return a value. -/
inductive Fault
  | err (e : String)
  | panic (reason : String)
  deriving Repr, DecidableEq

/-- A call of `AddNamedFull`; the directory is passed as a descriptor. -/
structure AddCall where
  dir : Path
  filename : List UInt8
  flags : Nat
  appId : String
  permissions : List String
  deriving Repr, DecidableEq

/-- What the system says while one file is shared. -/
structure Answers where
  found : Bool
  isFile : Bool
  openDir : Option Errno
  addNamedFull : Except String (List UInt8)

/-- The texts that come from outside. -/
structure Texts where
  strerror : Errno → String
  debug : List UInt8 → String

def DOCUMENT_ADD_FLAGS_REUSE_EXISTING : Nat := 1 <<< 0

def permissions (writable : Bool) : List String :=
  if writable then ["read", "write", "grant-permissions"] else ["read", "grant-permissions"]

/-- The call for a file in a directory. The name is passed with its terminating NUL. -/
def addCall (dir basename : Path) (writable : Bool) : AddCall :=
  ⟨dir, basename ++ [0], DOCUMENT_ADD_FLAGS_REUSE_EXISTING, "", permissions writable⟩

/-- The path of a document, relative to where the documents are mounted. -/
def documentPath (docId : List UInt8) (basename : Path) : Path :=
  Path.join (Path.join (ascii ['d', 'o', 'c']) docId) basename

def shareFile (texts : Texts) (a : Answers) (sourcePath : Path) (writable : Bool) :
    List AddCall × Except Fault Path :=
  if a.found ∧ ¬ a.isFile then
    ([], .error (.err "only regular files can currently be shared"))
  else
    match Path.parent sourcePath with
    | none => ([], .error (.panic "parent"))
    | some dir =>
      match a.openDir with
      | some e => ([], .error (.err s!"opening {texts.debug dir} O_PATH: {texts.strerror e}"))
      | none =>
        match Path.fileName sourcePath with
        | none => ([], .error (.panic "file_name"))
        | some basename =>
          match a.addNamedFull with
          | .error e => ([addCall dir basename writable], .error (.err s!"AddNamedFull: {e}"))
          | .ok docId => ([addCall dir basename writable], .ok (documentPath docId basename))

/-! ## What sharing a file does -/

/-- The paths at which an `unwrap` fails. -/
def Unshareable (a : Answers) (sourcePath : Path) : Prop :=
  ¬ (a.found ∧ ¬ a.isFile) ∧ (Path.parent sourcePath = none ∨
    a.openDir = none ∧ Path.fileName sourcePath = none)

instance (a : Answers) (sourcePath : Path) : Decidable (Unshareable a sourcePath) :=
  inferInstanceAs (Decidable (_ ∧ _))

@[simp] theorem write_mem_permissions (writable : Bool) :
    "write" ∈ permissions writable ↔ writable = true := by
  cases writable <;> decide

/-- The file is exported by the document portal. -/
structure Exported (a : Answers) (sourcePath dir basename : Path) (docId : List UInt8) : Prop where
  regular : ¬ (a.found ∧ ¬ a.isFile)
  parent : Path.parent sourcePath = some dir
  opened : a.openDir = none
  fileName : Path.fileName sourcePath = some basename
  added : a.addNamedFull = .ok docId

theorem Exported.shareFile {a : Answers} {path dir basename : Path} {docId : List UInt8}
    (h : Exported a path dir basename docId) (texts : Texts) (writable : Bool) :
    shareFile texts a path writable =
      ([addCall dir basename writable], .ok (documentPath docId basename)) := by
  rw [Portal.shareFile, if_neg h.regular]
  simp [h.parent, h.opened, h.fileName, h.added]

/-- **The three ways in which `share_file` ends.** -/
theorem shareFile_cases (texts : Texts) (a : Answers) (path : Path) (writable : Bool) :
    (Unshareable a path ∧
      ∃ reason, shareFile texts a path writable = ([], .error (.panic reason))) ∨
    (¬ Unshareable a path ∧ ∃ e calls, shareFile texts a path writable = (calls, .error (.err e)) ∧
      ∀ call ∈ calls, call.permissions = permissions writable) ∨
    (¬ Unshareable a path ∧ ∃ dir basename docId, Exported a path dir basename docId) := by
  unfold shareFile
  by_cases hdir : a.found ∧ ¬ a.isFile
  · rw [if_pos hdir]
    exact Or.inr (Or.inl ⟨fun h => h.1 hdir, _, _, rfl, nofun⟩)
  · rw [if_neg hdir]
    cases hp : Path.parent path with
    | none => exact Or.inl ⟨⟨hdir, Or.inl hp⟩, _, rfl⟩
    | some dir =>
      cases ho : a.openDir with
      | some e =>
        refine Or.inr (Or.inl ⟨fun h => ?_, _, _, rfl, nofun⟩)
        rcases h.2 with h | h
        · simp [hp] at h
        · simp [ho] at h
      | none =>
        cases hf : Path.fileName path with
        | none => exact Or.inl ⟨⟨hdir, Or.inr ⟨ho, hf⟩⟩, _, rfl⟩
        | some basename =>
          have hok : ¬ Unshareable a path := by
            rintro ⟨-, h | h⟩
            · simp [hp] at h
            · simp [hf] at h
          cases ha : a.addNamedFull with
          | error e =>
            refine Or.inr (Or.inl ⟨hok, _, _, rfl, ?_⟩)
            intro call hcall
            rw [List.mem_singleton.mp hcall]
            rfl
          | ok docId => exact Or.inr (Or.inr ⟨hok, dir, basename, docId, hdir, hp, ho, hf, ha⟩)

end Spectrum.Portal

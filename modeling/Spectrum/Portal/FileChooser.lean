import Mathlib.Data.Finmap
import Spectrum.Portal.Documents

/-!
# `file_chooser.rs`

The file chooser that the guest talks to. A request is passed on to the backend on the host, which
lets the user choose files and answers with their URIs; each of the files is then shared with the
guest, and its URI replaced by one that is valid there.

**What the guest is told is what it has been granted**, as long as no URI leads to a panic: then,
and only then, every request is answered as it should be.
-/

set_option autoImplicit false

namespace Spectrum.Portal

open Bytes

/-! ## Values on the bus

This is `zvariant::Value`, as far as the code looks at values. What is assumed about the crate is in
`inner`: `downcast_ref` and the conversions to `bool`, arrays and strings take a value of their type
or a variant with one, and fail for every other. -/

inductive Value
  | bool (b : Bool)
  | string (s : List UInt8)
  | array (items : List Value)
  | variant (v : Value)
  /-- A value of any other type, by its signature. -/
  | other (signature : String)

namespace Value

/-- `downcast_ref` looks into a variant. -/
def inner : Value → Value
  | .variant v => v
  | v => v

def downcastBool (v : Value) : Option Bool :=
  match v.inner with
  | .bool b => some b
  | _ => none

def downcastArray (v : Value) : Option (List Value) :=
  match v.inner with
  | .array items => some items
  | _ => none

def toString? (v : Value) : Option (List UInt8) :=
  match v.inner with
  | .string s => some s
  | _ => none

def toStrings? (items : List Value) : Option (List (List UInt8)) := items.mapM toString?

/-- The strings in a value that is an array of strings. -/
def strings? (v : Value) : Option (List (List UInt8)) := v.downcastArray.bind toStrings?

def ofStrings (ss : List (List UInt8)) : Value := .array (ss.map .string)

end Value

abbrev Uri := List UInt8

abbrev Results := Finmap fun _ : String => Value

def XDG_DESKTOP_PORTAL_RESPONSE_SUCCESS : Nat := 0
def XDG_DESKTOP_PORTAL_RESPONSE_CANCELLED : Nat := 1
def XDG_DESKTOP_PORTAL_RESPONSE_OTHER : Nat := 2

/-- What the guest sends. -/
structure Request where
  handle : String
  appId : String
  parentWindow : String
  title : String
  options : List (String × Value)

/-! ## The code -/

def fileScheme : Uri := ascii ['f', 'i', 'l', 'e', ':', '/', '/']

structure ChooserEnv where
  texts : Texts
  incorrectType : String
  debugResults : Results → String
  /-- `Url::from_file_path`. -/
  fromFilePath : Path → Option Uri
  /-- `percent_decode`, which makes nothing of nothing only. -/
  percentDecode : List UInt8 → List UInt8
  percentDecode_eq_nil : ∀ s, percentDecode s = [] ↔ s = []

section

variable (env : ChooserEnv) (guestShareRoot : Path) (answers : Nat → Answers)

/-- The path a `file://` URI stands for. -/
def uriPath (uri : Uri) : Option Path :=
  if fileScheme <+: uri then some (env.percentDecode (uri.drop fileScheme.length)) else none

/-- The loop over the URIs, with the number of those before. -/
def shareUris (writable : Bool) : Nat → List Uri → List AddCall × Except Fault (List Uri)
  | _, [] => ([], .ok [])
  | n, uri :: uris =>
    match uriPath env uri with
    | none =>
      ([], .error (.err s!"member of uris is not a file:// URL: {env.texts.debug uri}"))
    | some path =>
      match shareFile env.texts (answers n) path writable with
      | (calls, .error (.err e)) =>
        (calls, .error (.err s!"adding {env.texts.debug path} to document portal: {e}"))
      | (calls, .error (.panic reason)) => (calls, .error (.panic reason))
      | (calls, .ok shared) =>
        match env.fromFilePath (Path.join guestShareRoot shared) with
        | none => (calls, .error (.panic "from_file_path"))
        | some url =>
          let rest := shareUris writable (n + 1) uris
          (calls ++ rest.1, rest.2.map (url :: ·))

def transformUris (uris : Value) (writable : Bool) : List AddCall × Except Fault Value :=
  match uris.downcastArray with
  | none => ([], .error (.err s!"uris: {env.incorrectType}"))
  | some items =>
    match Value.toStrings? items with
    | none => ([], .error (.err s!"members of uris: {env.incorrectType}"))
    | some uris =>
      let r := shareUris env guestShareRoot answers writable 0 uris
      (r.1, r.2.map Value.ofStrings)

/-- What `open_file_impl` and `save_file_impl` have in common; they differ in how they tell whether
the files may be written to. -/
def fileImpl (writable : Results → Except String Bool) (backend : Except String (Nat × Results)) :
    List AddCall × Except Fault (Option Results) :=
  match backend with
  | .error e => ([], .error (.err s!"backend: {e}"))
  | .ok (response, results) =>
    if response = XDG_DESKTOP_PORTAL_RESPONSE_SUCCESS then
      match writable results with
      | .error e => ([], .error (.err e))
      | .ok writable =>
        match results.lookup "uris" with
        | none => ([], .ok (some results))
        | some uris =>
          let r := transformUris env guestShareRoot answers uris writable
          (r.1, r.2.map fun uris => some (results.insert "uris" uris))
    else if response = XDG_DESKTOP_PORTAL_RESPONSE_CANCELLED then
      ([], .ok none)
    else
      ([], .error (.err
        s!"Interaction ended with response {response}: {env.debugResults results}"))

/-- Whether the backend says that files to be opened may be written to. -/
def writableFromBackend (results : Results) : Except String Bool :=
  match ((results.lookup "writable").getD (.bool false)).downcastBool with
  | none => .error s!"writable from backend: {env.incorrectType}"
  | some writable => .ok writable

def openFileImpl (backend : Except String (Nat × Results)) :
    List AddCall × Except Fault (Option Results) :=
  fileImpl env guestShareRoot answers (writableFromBackend env) backend

def saveFileImpl (backend : Except String (Nat × Results)) :
    List AddCall × Except Fault (Option Results) :=
  fileImpl env guestShareRoot answers (fun _ => .ok true) backend

/-- The reply to the guest. There is none after a panic. -/
def respond : Except Fault (Option Results) → Option (Nat × Results)
  | .ok (some results) => some (XDG_DESKTOP_PORTAL_RESPONSE_SUCCESS, results)
  | .ok none => some (XDG_DESKTOP_PORTAL_RESPONSE_CANCELLED, ∅)
  | .error (.err _) => some (XDG_DESKTOP_PORTAL_RESPONSE_OTHER, ∅)
  | .error (.panic _) => none

def openFile (backend : Request → Except String (Nat × Results)) (request : Request) :
    List AddCall × Option (Nat × Results) :=
  let r := openFileImpl env guestShareRoot answers (backend request)
  (r.1, respond r.2)

def saveFile (backend : Request → Except String (Nat × Results)) (request : Request) :
    List AddCall × Option (Nat × Results) :=
  let r := saveFileImpl env guestShareRoot answers (backend request)
  (r.1, respond r.2)

inductive Method
  | openFile
  | saveFile
  deriving Repr, DecidableEq

def handle (method : Method) (backend : Request → Except String (Nat × Results))
    (request : Request) : List AddCall × Option (Nat × Results) :=
  match method with
  | .openFile => openFile env guestShareRoot answers backend request
  | .saveFile => saveFile env guestShareRoot answers backend request

/-! ## Sharing a list of files -/

/-- All of the URIs have been shared: the calls made for them, and what they have become. -/
inductive Shared (writable : Bool) : Nat → List Uri → List AddCall → List Uri → Prop
  | nil (n : Nat) : Shared writable n [] [] []
  | cons {n : Nat} {uri : Uri} {uris : List Uri} {path dir basename : Path} {docId : List UInt8}
      {url : Uri} {calls : List AddCall} {urls : List Uri} :
      uriPath env uri = some path → Exported (answers n) path dir basename docId →
      env.fromFilePath (Path.join guestShareRoot (documentPath docId basename)) = some url →
      Shared writable (n + 1) uris calls urls →
      Shared writable n (uri :: uris) (addCall dir basename writable :: calls) (url :: urls)

/-- Some URI that is reached, all before it having been shared, leads to a panic. -/
def Blocked (writable : Bool) (n : Nat) (uris : List Uri) : Prop :=
  ∃ before uri after path calls urls, uris = before ++ uri :: after ∧
    Shared env guestShareRoot answers writable n before calls urls ∧ uriPath env uri = some path ∧
    Unshareable (answers (n + before.length)) path

/-! ## What a request may lead to -/

/-- Whether the files of this request may be written to. -/
def MayWrite (method : Method) (results : Results) : Prop :=
  method = .saveFile ∨ ∃ v, results.lookup "writable" = some v ∧ v.downcastBool = some true

/-- The map that goes with success: the backend's, with every URI in it shared and replaced. -/
def Granted (results : Results) (calls : List AddCall) (map : Results) : Prop :=
  match results.lookup "uris" with
  | none => map = results
  | some v => ∃ uris urls writable, v.strings? = some uris ∧
      Shared env guestShareRoot answers writable 0 uris calls urls ∧
      map = results.insert "uris" (.ofStrings urls)

/-- The guest is told what the backend said, and has got no more than it is told. -/
structure Confined (method : Method) (backend : Except String (Nat × Results))
    (calls : List AddCall) (reply : Option (Nat × Results)) : Prop where
  reply : match backend with
    | .ok (0, results) =>
      (∃ map, reply = some (0, map) ∧ Granted env guestShareRoot answers results calls map) ∨
        reply = some (2, ∅)
    | .ok (1, _) => reply = some (1, ∅)
    | _ => reply = some (2, ∅)
  write : ∀ call ∈ calls, ∃ n results, backend = .ok (n, results) ∧
    ("write" ∈ call.permissions ↔ MayWrite method results)

def writableOf : Method → Results → Except String Bool
  | .openFile => writableFromBackend env
  | .saveFile => fun _ => .ok true

/-- The backend's answer has a URI that leads to a panic. -/
def Hazard (method : Method) (backend : Except String (Nat × Results)) : Prop :=
  ∃ results writable v uris, backend = .ok (0, results) ∧
    writableOf env method results = .ok writable ∧ results.lookup "uris" = some v ∧
    v.strings? = some uris ∧ Blocked env guestShareRoot answers writable 0 uris

end

section

variable {env : ChooserEnv} {guestShareRoot : Path} {answers : Nat → Answers} {writable : Bool}

theorem blocked_cons {n : Nat} {uri : Uri} {uris : List Uri} :
    Blocked env guestShareRoot answers writable n (uri :: uris) ↔
      (∃ path, uriPath env uri = some path ∧ Unshareable (answers n) path) ∨
      ((∃ calls urls, Shared env guestShareRoot answers writable n [uri] calls urls) ∧
        Blocked env guestShareRoot answers writable (n + 1) uris) := by
  constructor
  · rintro ⟨before, uri', after, path, calls, urls, heq, hshared, hpath, hun⟩
    cases hshared with
    | nil =>
      cases heq
      exact Or.inl ⟨path, hpath, hun⟩
    | cons hpath' hexp hurl hrest =>
      cases heq
      refine Or.inr ⟨⟨_, _, .cons hpath' hexp hurl (.nil _)⟩, _, uri', after, path, _, _, rfl,
        hrest, hpath, ?_⟩
      simpa [Nat.add_assoc, Nat.add_comm 1] using hun
  · rintro (⟨path, hpath, hun⟩ | ⟨⟨calls, urls, hhead⟩, before, uri', after, path, calls', urls',
      rfl, hshared, hpath, hun⟩)
    · exact ⟨[], uri, uris, path, [], [], rfl, .nil n, hpath, hun⟩
    · cases hhead with
      | cons hpath' hexp hurl _ =>
      refine ⟨uri :: before, uri', after, path, _, _, rfl, .cons hpath' hexp hurl hshared, hpath,
        ?_⟩
      simpa [Nat.add_assoc, Nat.add_comm 1] using hun

/-- The loop panics exactly if it is blocked; otherwise all is shared, or it fails. -/
theorem shareUris_cases (hroot : Path.isAbsolute guestShareRoot)
    (hurl : ∀ p, Path.isAbsolute p → (env.fromFilePath p).isSome) (answers : Nat → Answers)
    (writable : Bool) (n : Nat) (uris : List Uri) :
    ∃ calls r, shareUris env guestShareRoot answers writable n uris = (calls, r) ∧
      (∀ call ∈ calls, call.permissions = permissions writable) ∧
      match r with
      | .ok urls => Shared env guestShareRoot answers writable n uris calls urls ∧
          ¬ Blocked env guestShareRoot answers writable n uris
      | .error (.err _) => ¬ Blocked env guestShareRoot answers writable n uris
      | .error (.panic _) => Blocked env guestShareRoot answers writable n uris := by
  induction uris generalizing n with
  | nil =>
    refine ⟨[], .ok [], rfl, nofun, .nil n, ?_⟩
    rintro ⟨before, uri, after, path, calls, urls, heq, -⟩
    simp at heq
  | cons uri uris ih =>
    unfold shareUris
    cases hp : uriPath env uri with
    | none =>
      refine ⟨_, _, rfl, nofun, fun hb => ?_⟩
      rcases blocked_cons.mp hb with ⟨path, hpath, -⟩ | ⟨⟨_, _, hhead⟩, -⟩
      · simp [hp] at hpath
      · cases hhead with
        | cons hpath _ _ _ => simp [hp] at hpath
    | some path =>
      rcases shareFile_cases env.texts (answers n) path writable with
        ⟨hun, reason, hs⟩ | ⟨hok, e, calls, hs, hperm⟩ | ⟨hok, dir, basename, docId, hexp⟩
      · simp only [hs]
        exact ⟨_, _, rfl, nofun, blocked_cons.mpr (Or.inl ⟨path, hp, hun⟩)⟩
      · simp only [hs]
        refine ⟨_, _, rfl, hperm, fun hb => ?_⟩
        rcases blocked_cons.mp hb with ⟨path', hpath', hun⟩ | ⟨⟨_, _, hhead⟩, -⟩
        · rw [hp] at hpath'
          exact hok (Option.some.inj hpath' ▸ hun)
        · cases hhead with
          | cons hpath' hexp _ _ =>
          rw [hp] at hpath'
          obtain rfl := Option.some.inj hpath'
          rw [hexp.shareFile] at hs
          cases hs
      · obtain ⟨url, hu⟩ := Option.isSome_iff_exists.mp
          (hurl _ (Path.isAbsolute_join hroot (documentPath docId basename)))
        obtain ⟨calls, r, hrest, hperm, hr⟩ := ih (n + 1)
        have hblocked : Blocked env guestShareRoot answers writable n (uri :: uris) ↔
            Blocked env guestShareRoot answers writable (n + 1) uris := by
          refine blocked_cons.trans ⟨?_, fun h => Or.inr ⟨⟨_, _, .cons hp hexp hu (.nil _)⟩, h⟩⟩
          rintro (⟨path', hpath', hun⟩ | ⟨-, h⟩)
          · rw [hp] at hpath'
            exact absurd (Option.some.inj hpath' ▸ hun) hok
          · exact h
        simp only [hexp.shareFile, hu, hrest]
        refine ⟨_, _, rfl, ?_, ?_⟩
        · intro call hcall
          rcases List.mem_cons.mp hcall with rfl | hcall
          · rfl
          · exact hperm call hcall
        · rw [hblocked]
          match r, hr with
          | .ok urls, hr => exact ⟨.cons hp hexp hu hr.1, hr.2⟩
          | .error (.err e), hr => exact hr
          | .error (.panic reason), hr => exact hr

/-- The same for a value that may be anything. -/
theorem transformUris_cases (hroot : Path.isAbsolute guestShareRoot)
    (hurl : ∀ p, Path.isAbsolute p → (env.fromFilePath p).isSome) (answers : Nat → Answers)
    (v : Value) (writable : Bool) :
    ∃ calls r, transformUris env guestShareRoot answers v writable = (calls, r) ∧
      (∀ call ∈ calls, call.permissions = permissions writable) ∧
      match r with
      | .ok v' => ∃ uris urls, v.strings? = some uris ∧
          Shared env guestShareRoot answers writable 0 uris calls urls ∧ v' = .ofStrings urls ∧
          ¬ Blocked env guestShareRoot answers writable 0 uris
      | .error (.err _) => ∀ uris, v.strings? = some uris →
          ¬ Blocked env guestShareRoot answers writable 0 uris
      | .error (.panic _) => ∃ uris, v.strings? = some uris ∧
          Blocked env guestShareRoot answers writable 0 uris := by
  unfold transformUris Value.strings?
  cases ha : v.downcastArray with
  | none => exact ⟨_, _, rfl, nofun, nofun⟩
  | some items =>
    dsimp only
    cases hm : Value.toStrings? items with
    | none => exact ⟨_, _, rfl, nofun, by simp [hm]⟩
    | some uris =>
      obtain ⟨calls, r, hshare, hperm, hr⟩ := shareUris_cases hroot hurl answers writable 0 uris
      simp only [hshare, Option.bind_some, hm]
      refine ⟨_, _, rfl, hperm, ?_⟩
      match r, hr with
      | .ok urls, hr => exact ⟨uris, urls, rfl, hr.1, rfl, hr.2⟩
      | .error (.err e), hr => exact fun uris' h => Option.some.inj h ▸ hr
      | .error (.panic reason), hr => exact ⟨uris, rfl, hr⟩

theorem writableOf_iff {method : Method} {results : Results}
    (h : writableOf env method results = .ok writable) :
    writable = true ↔ MayWrite method results := by
  cases method with
  | saveFile =>
    cases h
    simp [MayWrite]
  | openFile =>
    simp only [writableOf, writableFromBackend] at h
    cases hv : results.lookup "writable" with
    | none =>
      rw [hv] at h
      cases h
      simp [MayWrite, hv]
    | some v =>
      rw [hv, Option.getD_some] at h
      cases hb : v.downcastBool with
      | none =>
        rw [hb] at h
        cases h
      | some b =>
        rw [hb] at h
        cases h
        simp [MayWrite, hv, hb]

theorem handle_eq (method : Method) (backend : Request → Except String (Nat × Results))
    (request : Request) :
    handle env guestShareRoot answers method backend request =
      ((fileImpl env guestShareRoot answers (writableOf env method) (backend request)).1,
        respond
          (fileImpl env guestShareRoot answers (writableOf env method) (backend request)).2) := by
  cases method <;> rfl

/-- Nothing is called unless the backend has succeeded and there are URIs. -/
theorem fileImpl_cases (method : Method) (reply : Except String (Nat × Results)) :
    (∃ r, fileImpl env guestShareRoot answers (writableOf env method) reply = ([], r) ∧
      Confined env guestShareRoot answers method reply [] (respond r) ∧
      ∀ results writable v, reply = .ok (0, results) →
        writableOf env method results = .ok writable → results.lookup "uris" ≠ some v) ∨
    ∃ results writable v, reply = .ok (0, results) ∧
      writableOf env method results = .ok writable ∧ results.lookup "uris" = some v ∧
      fileImpl env guestShareRoot answers (writableOf env method) reply =
        ((transformUris env guestShareRoot answers v writable).1,
          (transformUris env guestShareRoot answers v writable).2.map fun uris =>
            some (results.insert "uris" uris)) := by
  have hwrite : ∀ call ∈ ([] : List AddCall), ∃ n results, reply = .ok (n, results) ∧
      ("write" ∈ call.permissions ↔ MayWrite method results) := by simp
  cases reply with
  | error e =>
    refine Or.inl ⟨_, rfl, ⟨rfl, hwrite⟩, fun results writable v h => ?_⟩
    cases h
  | ok reply =>
    obtain ⟨response, results⟩ := reply
    cases response with
    | zero =>
      simp only [fileImpl, XDG_DESKTOP_PORTAL_RESPONSE_SUCCESS, if_true]
      cases hw : writableOf env method results with
      | error e =>
        refine Or.inl ⟨_, rfl, ⟨Or.inr rfl, hwrite⟩, fun results' writable v h hw' => ?_⟩
        cases h
        cases hw.symm.trans hw'
      | ok writable =>
        cases hu : results.lookup "uris" with
        | none =>
          have hgranted : Granted env guestShareRoot answers results [] results := by
            rw [Granted, hu]
          refine Or.inl ⟨_, rfl, ⟨Or.inl ⟨results, rfl, hgranted⟩, hwrite⟩, ?_⟩
          intro results' writable v h _
          cases h
          simp [hu]
        | some v => exact Or.inr ⟨results, writable, v, rfl, hw, hu, rfl⟩
    | succ n =>
      cases n with
      | zero =>
        refine Or.inl ⟨_, rfl, ⟨rfl, hwrite⟩, fun results writable v h => ?_⟩
        cases h
      | succ n =>
        refine Or.inl ⟨_, rfl, ⟨rfl, hwrite⟩, fun results writable v h => ?_⟩
        cases h

/-- The hazards of an answer are those of its URIs. -/
theorem hazard_iff {method : Method} {results : Results} {v : Value}
    (hw : writableOf env method results = .ok writable) (hu : results.lookup "uris" = some v) :
    Hazard env guestShareRoot answers method (.ok (0, results)) ↔
      ∃ uris, v.strings? = some uris ∧ Blocked env guestShareRoot answers writable 0 uris := by
  constructor
  · intro h
    obtain ⟨results', writable', v', uris, heq, hw', hu', hs, hb⟩ := h
    cases heq
    obtain rfl := Except.ok.inj (hw.symm.trans hw')
    obtain rfl := Option.some.inj (hu.symm.trans hu')
    exact ⟨uris, hs, hb⟩
  · intro h
    obtain ⟨uris, hs, hb⟩ := h
    exact ⟨results, writable, v, uris, rfl, hw, hu, hs, hb⟩

end

/-- **Every request is answered as it should be, and nothing is granted beyond the answer, exactly
if no URI leads to a panic.** -/
theorem handle_confined_iff {env : ChooserEnv} {guestShareRoot : Path}
    (hroot : Path.isAbsolute guestShareRoot)
    (hurl : ∀ p, Path.isAbsolute p → (env.fromFilePath p).isSome) (answers : Nat → Answers)
    (method : Method) (backend : Request → Except String (Nat × Results)) (request : Request) :
    let r := handle env guestShareRoot answers method backend request
    Confined env guestShareRoot answers method (backend request) r.1 r.2 ↔
      ¬ Hazard env guestShareRoot answers method (backend request) := by
  simp only [handle_eq]
  generalize backend request = reply
  rcases @fileImpl_cases env guestShareRoot answers method reply with
    ⟨r, hfile, hconfined, hnone⟩ | ⟨results, writable, v, rfl, hw, hu, hfile⟩
  · rw [hfile]
    refine ⟨fun _ h => ?_, fun _ => hconfined⟩
    obtain ⟨results, writable, v, uris, heq, hw, hu, -⟩ := h
    exact hnone results writable v heq hw hu
  · obtain ⟨calls, r, ht, hperm, hr⟩ := transformUris_cases hroot hurl answers v writable
    rw [hfile, ht, hazard_iff hw hu]
    have hwrite : ∀ call ∈ calls, ∃ n results',
        (.ok (0, results) : Except String (Nat × Results)) = .ok (n, results') ∧
          ("write" ∈ call.permissions ↔ MayWrite method results') := by
      intro call hcall
      refine ⟨0, results, rfl, ?_⟩
      rw [hperm call hcall, write_mem_permissions]
      exact writableOf_iff hw
    match r, hr with
    | .ok v', hr =>
      obtain ⟨uris, urls, hs, hshared, rfl, hnot⟩ := hr
      refine ⟨fun _ h => ?_, fun _ => ⟨Or.inl ⟨_, rfl, ?_⟩, hwrite⟩⟩
      · obtain ⟨uris', hs', hb⟩ := h
        obtain rfl := Option.some.inj (hs.symm.trans hs')
        exact hnot hb
      · rw [Granted, hu]
        exact ⟨uris, urls, writable, hs, hshared, rfl⟩
    | .error (.err e), hr =>
      exact ⟨fun _ h => h.elim fun uris h => hr uris h.1 h.2, fun _ => ⟨Or.inr rfl, hwrite⟩⟩
    | .error (.panic reason), hr =>
      refine ⟨fun h => ?_, fun h => absurd hr h⟩
      rcases h.reply with ⟨map, hreply, -⟩ | hreply <;> cases hreply

/-- An environment in which URLs are paths with the scheme in front, and nothing is encoded. -/
def plainEnv : ChooserEnv where
  texts := ⟨fun _ => "", fun _ => ""⟩
  incorrectType := ""
  debugResults := fun _ => ""
  fromFilePath := fun p => if Path.isAbsolute p then some (fileScheme ++ p) else none
  percentDecode := id
  percentDecode_eq_nil := fun _ => Iff.rfl

theorem plainEnv_url (p : Path) (h : Path.isAbsolute p) : (plainEnv.fromFilePath p).isSome := by
  simp [plainEnv, h]

/-- The backend answers with one URI. -/
def oneUri (uri : Uri) (_ : Request) : Except String (Nat × Results) :=
  .ok (0, Finmap.singleton "uris" (.ofStrings [uri]))

def emptyRequest : Request := ⟨"", "", "", "", []⟩

theorem handle_confined_one_file :
    let answers : Nat → Answers := fun _ => ⟨true, true, none, .ok (ascii ['7'])⟩
    let uri := fileScheme ++ ascii ['/', 'a', '/', 'b']
    let r := handle plainEnv (ascii ['/', 'h']) answers .openFile (oneUri uri) emptyRequest
    Confined plainEnv (ascii ['/', 'h']) answers .openFile (oneUri uri emptyRequest) r.1 r.2 := by
  intro answers uri
  refine (handle_confined_iff (by decide) plainEnv_url answers .openFile (oneUri uri)
    emptyRequest).mpr ?_
  rintro ⟨results, writable, v, uris, heq, -, hv, hs, hb⟩
  cases heq
  rw [Finmap.lookup_singleton_eq] at hv
  cases hv
  cases hs
  rcases blocked_cons.mp hb with ⟨path, hpath, hun⟩ | ⟨-, hb⟩
  · cases hpath
    revert hun
    decide
  · obtain ⟨before, uri', after, path, calls, urls, heq, -⟩ := hb
    simp at heq

/-- The URI `file://` stands for the empty path, which has no parent: the guest gets no answer. -/
theorem handle_empty_path_panics :
    let answers : Nat → Answers := fun _ => ⟨false, false, none, .ok (ascii ['7'])⟩
    let r := handle plainEnv (ascii ['/', 'h']) answers .saveFile (oneUri fileScheme) emptyRequest
    r.2 = none ∧ ¬ Confined plainEnv (ascii ['/', 'h']) answers .saveFile
      (oneUri fileScheme emptyRequest) r.1 r.2 := by
  intro answers r
  have hreply : r.2 = none := rfl
  refine ⟨hreply, fun h => ?_⟩
  rcases h.reply with ⟨map, hsome, -⟩ | hsome <;> cases hreply.symm.trans hsome

end Spectrum.Portal

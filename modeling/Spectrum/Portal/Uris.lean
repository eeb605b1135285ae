import Spectrum.Portal.FileChooser

/-!
# Sharing a list of URIs

`transform_uris` goes through the URIs that the backend returned, one after the other, and stops at
the first one it cannot share. Three things are said here about what that means.

**The guest is pointed at the files that were chosen**: what the guest gets in place of a URI leads,
component by component, to the document that was added for it. **A request that fails may have
shared files nevertheless**, because nothing takes back what was granted before the loop stopped.
And **the only URI that makes it panic is `file://`**, the empty path, as long as the file system
answers like one.
-/

set_option autoImplicit false

namespace Spectrum.Portal

open Bytes

/-! ## Where the loop stops -/

/-- The file behind this URI is exported. -/
def Shareable (env : ChooserEnv) (a : Answers) (uri : Uri) : Prop :=
  ∃ path dir basename docId, uriPath env uri = some path ∧ Exported a path dir basename docId

/-- A file that is not exported may have been asked for, in vain. -/
theorem shareFile_error {texts : Texts} {a : Answers} {path : Path} {writable : Bool}
    {calls : List AddCall} {fault : Fault}
    (h : shareFile texts a path writable = (calls, .error fault)) :
    (¬ ∃ dir basename docId, Exported a path dir basename docId) ∧
      (calls = [] ∨ ∃ call e, calls = [call] ∧ a.addNamedFull = .error e) := by
  refine ⟨fun ⟨dir, basename, docId, hexp⟩ => ?_, ?_⟩
  · rw [hexp.shareFile] at h
    cases h
  · unfold shareFile at h
    repeat' split at h
    all_goals cases h
    all_goals first | exact Or.inl rfl | exact Or.inr ⟨_, _, rfl, by assumption⟩

section

variable {env : ChooserEnv} {guestShareRoot : Path} {answers : Nat → Answers} {writable : Bool}

/-- **The loop shares all URIs, or all up to one that it cannot share.** -/
theorem shareUris_split (hroot : Path.isAbsolute guestShareRoot)
    (hurl : ∀ p, Path.isAbsolute p → (env.fromFilePath p).isSome) (answers : Nat → Answers)
    (writable : Bool) (n : Nat) (uris : List Uri) :
    (∃ calls urls, shareUris env guestShareRoot answers writable n uris = (calls, .ok urls) ∧
      Shared env guestShareRoot answers writable n uris calls urls) ∨
    ∃ before uri after calls urls last fault, uris = before ++ uri :: after ∧
      shareUris env guestShareRoot answers writable n uris = (calls ++ last, .error fault) ∧
      Shared env guestShareRoot answers writable n before calls urls ∧
      ¬ Shareable env (answers (n + before.length)) uri ∧
      (last = [] ∨ ∃ call e, last = [call] ∧
        (answers (n + before.length)).addNamedFull = .error e) := by
  induction uris generalizing n with
  | nil => exact Or.inl ⟨[], [], rfl, .nil n⟩
  | cons uri uris ih =>
    unfold shareUris
    cases hp : uriPath env uri with
    | none =>
      refine Or.inr ⟨[], uri, uris, [], [], [], _, rfl, rfl, .nil n, ?_, Or.inl rfl⟩
      intro h
      obtain ⟨path, -, -, -, hpath, -⟩ := h
      simp [hp] at hpath
    | some path =>
      -- Nothing is exported if `share_file` fails.
      have hstop : ∀ calls fault,
          shareFile env.texts (answers n) path writable = (calls, .error fault) →
          ¬ Shareable env (answers n) uri := by
        intro calls fault hs h
        obtain ⟨path', dir, basename, docId, hpath, hexp⟩ := h
        obtain rfl := Option.some.inj (hp.symm.trans hpath)
        exact (shareFile_error hs).1 ⟨dir, basename, docId, hexp⟩
      rcases shareFile_cases env.texts (answers n) path writable with
        ⟨-, reason, hs⟩ | ⟨-, e, calls, hs, -⟩ | ⟨-, dir, basename, docId, hexp⟩
      · simp only [hs]
        exact Or.inr ⟨[], uri, uris, [], [], [], _, rfl, rfl, .nil n, hstop _ _ hs, Or.inl rfl⟩
      · simp only [hs]
        exact Or.inr ⟨[], uri, uris, [], [], calls, _, rfl, rfl, .nil n, hstop _ _ hs,
          (shareFile_error hs).2⟩
      · obtain ⟨url, hu⟩ := Option.isSome_iff_exists.mp
          (hurl _ (Path.isAbsolute_join hroot (documentPath docId basename)))
        simp only [hexp.shareFile, hu]
        rcases ih (n + 1) with ⟨calls, urls, hs, hshared⟩ |
          ⟨before, uri', after, calls, urls, last, fault, rfl, hs, hshared, hun, hlast⟩
        · rw [hs]
          exact Or.inl ⟨_, _, rfl, .cons hp hexp hu hshared⟩
        · rw [hs]
          have hlen : n + (uri :: before).length = n + 1 + before.length := by
            rw [List.length_cons]
            omega
          refine Or.inr ⟨uri :: before, uri', after, _, _, last, fault, rfl, rfl,
            .cons hp hexp hu hshared, ?_, ?_⟩
          · rwa [hlen]
          · rwa [hlen]

theorem Shared.length {n : Nat} {uris urls : List Uri} {calls : List AddCall}
    (h : Shared env guestShareRoot answers writable n uris calls urls) :
    calls.length = uris.length ∧ urls.length = uris.length := by
  induction h with
  | nil n => simp
  | cons hp hexp hu hrest ih => simp [ih]

/-- Every URI of a list that has been shared could be. -/
theorem Shared.shareable {n : Nat} {uris urls : List Uri} {calls : List AddCall}
    (h : Shared env guestShareRoot answers writable n uris calls urls) {before after : List Uri}
    {uri : Uri} (heq : uris = before ++ uri :: after) :
    Shareable env (answers (n + before.length)) uri := by
  induction h generalizing before with
  | nil n => simp at heq
  | @cons n uri' uris path dir basename docId url calls urls hp hexp hu hrest ih =>
    cases before with
    | nil =>
      cases heq
      exact ⟨path, dir, basename, docId, hp, hexp⟩
    | cons first before =>
      cases heq
      have hlen : n + (uri' :: before).length = n + 1 + before.length := by
        rw [List.length_cons]
        omega
      rw [hlen]
      exact ih rfl

end

@[simp] theorem strings?_ofStrings (ss : List (List UInt8)) :
    (Value.ofStrings ss).strings? = some ss := by
  show (ss.map Value.string).mapM Value.toString? = some ss
  induction ss with
  | nil => rfl
  | cons s ss ih => simp [ih, Value.toString?, Value.inner]

/-! ## The guest is pointed at the files that were chosen -/

/-- A document id is a single component. -/
def IsDocId (docId : List UInt8) : Prop := Path.Counts docId ∧ Path.slash ∉ docId

instance (docId : List UInt8) : Decidable (IsDocId docId) := inferInstanceAs (Decidable (_ ∧ _))

/-- `Url::from_file_path` encodes the components of a path, and `percent_decode` decodes them. -/
def EncodesComponents (env : ChooserEnv) : Prop :=
  ∀ p, Path.isAbsolute p → ∃ s, env.fromFilePath p = some (fileScheme ++ s) ∧
    Path.components (env.percentDecode s) = Path.components p

/-- The call that was made for a URI is for the file that the URI stands for, and the URL that
replaces it leads to the document. -/
def Pointed (env : ChooserEnv) (guestShareRoot : Path) (writable : Bool) (a : Answers) (uri : Uri)
    (call : AddCall) (url : Uri) : Prop :=
  ∃ path dir basename docId s, uriPath env uri = some path ∧ Path.parent path = some dir ∧
    Path.components path = Path.components dir ++ [basename] ∧ 0 ∉ basename ∧
    call = addCall dir basename writable ∧ a.addNamedFull = .ok docId ∧ url = fileScheme ++ s ∧
    Path.components (env.percentDecode s) =
      Path.components guestShareRoot ++ [ascii ['d', 'o', 'c'], docId, basename]

theorem names_documentPath {docId : List UInt8} {basename : Path} (hid : IsDocId docId)
    (hb : Path.Counts basename ∧ Path.slash ∉ basename) :
    Path.names (documentPath docId basename) = [ascii ['d', 'o', 'c'], docId, basename] := by
  rw [documentPath, Path.names_join (Path.not_isAbsolute_of_slash_not_mem hb.2),
    Path.names_join (Path.not_isAbsolute_of_slash_not_mem hid.2), Path.names_of_counts hid.1 hid.2,
    Path.names_of_counts hb.1 hb.2]
  rfl

theorem not_isAbsolute_documentPath {docId : List UInt8} {basename : Path} (hid : IsDocId docId)
    (hb : Path.slash ∉ basename) : ¬ Path.isAbsolute (documentPath docId basename) := by
  have hdoc : Path.join (ascii ['d', 'o', 'c']) docId =
      ascii ['d', 'o', 'c'] ++ Path.slash :: docId := by
    rw [Path.join, if_neg (Path.not_isAbsolute_of_slash_not_mem hid.2), if_pos (by decide)]
  rw [documentPath, hdoc, Path.join, if_neg (Path.not_isAbsolute_of_slash_not_mem hb)]
  split <;> simp [Path.isAbsolute, ascii, Path.slash]

/-- The last component of an absolute path, and the directory it is in. -/
theorem components_of_fileName {path dir basename : Path} (habs : Path.isAbsolute path)
    (hdir : Path.parent path = some dir) (hname : Path.fileName path = some basename) :
    Path.components path = Path.components dir ++ [basename] := by
  obtain ⟨hdirAbs, -, hnames⟩ := Path.parent_of_isAbsolute habs hdir
  have hlast := (Path.fileName_eq_some hname).1
  rw [Path.components_of_isAbsolute habs, Path.components_of_isAbsolute hdirAbs, hnames,
    List.cons_append, List.dropLast_append_getLast? basename hlast]

theorem pointed_of_exported {env : ChooserEnv} {guestShareRoot : Path}
    (hroot : Path.isAbsolute guestShareRoot) (hurl : EncodesComponents env)
    {a : Answers} {uri url : Uri} {path dir basename : Path} {docId : List UInt8}
    (hid : IsDocId docId) (hpath : uriPath env uri = some path) (habs : Path.isAbsolute path)
    (hnul : 0 ∉ path) (hexp : Exported a path dir basename docId)
    (hu : env.fromFilePath (Path.join guestShareRoot (documentPath docId basename)) = some url)
    (writable : Bool) :
    Pointed env guestShareRoot writable a uri (addCall dir basename writable) url := by
  have hlast := List.mem_of_getLast? (Path.fileName_eq_some hexp.fileName).1
  obtain ⟨hcounts, hslash, hsub⟩ := Path.mem_names hlast
  obtain ⟨s, hs, hcomponents⟩ := hurl _ (Path.isAbsolute_join hroot (documentPath docId basename))
  refine ⟨path, dir, basename, docId, s, hpath, hexp.parent,
    components_of_fileName habs hexp.parent hexp.fileName, ?_, rfl, hexp.added,
    Option.some.inj (hu.symm.trans hs), ?_⟩
  · exact fun h => hnul (hsub h)
  · rw [hcomponents, Path.components_of_isAbsolute (Path.isAbsolute_join hroot _),
      Path.names_join (not_isAbsolute_documentPath hid hslash),
      names_documentPath hid ⟨hcounts, hslash⟩,
      Path.components_of_isAbsolute hroot, List.cons_append]

/-- The step above, for the whole list. -/
theorem Shared.pointed {env : ChooserEnv} {guestShareRoot : Path} {answers : Nat → Answers}
    {writable : Bool} (hroot : Path.isAbsolute guestShareRoot)
    (hurl : EncodesComponents env)
    (hids : ∀ i docId, (answers i).addNamedFull = .ok docId → IsDocId docId)
    {n : Nat} {uris urls : List Uri} {calls : List AddCall}
    (h : Shared env guestShareRoot answers writable n uris calls urls)
    (huris : ∀ uri ∈ uris, ∃ path, uriPath env uri = some path ∧ Path.isAbsolute path ∧ 0 ∉ path)
    {i : Nat} {uri url : Uri} {call : AddCall} (huri : uris[i]? = some uri)
    (hcall : calls[i]? = some call) (hurl' : urls[i]? = some url) :
    Pointed env guestShareRoot writable (answers (n + i)) uri call url := by
  induction h generalizing i with
  | nil n => simp at huri
  | @cons n uri' uris path dir basename docId url' calls urls hp hexp hu hrest ih =>
    cases i with
    | zero =>
      simp only [List.getElem?_cons_zero, Option.some.injEq] at huri hcall hurl'
      subst huri hcall hurl'
      obtain ⟨path', hpath', habs, hnul⟩ := huris uri' (by simp)
      obtain rfl := Option.some.inj (hp.symm.trans hpath')
      exact pointed_of_exported hroot hurl (hids n docId hexp.added) hp habs hnul hexp hu writable
    | succ i =>
      simp only [List.getElem?_cons_succ] at huri hcall hurl'
      have hrest := ih (fun u hmem => huris u (by simp [hmem])) huri hcall hurl'
      rwa [Nat.add_assoc, Nat.add_comm 1 i] at hrest

def hexDigit (n : Nat) : UInt8 := UInt8.ofNat (if n < 10 then 48 + n else 55 + n)

def hexValue (b : UInt8) : Option Nat :=
  if 48 ≤ b.toNat ∧ b.toNat ≤ 57 then some (b.toNat - 48)
  else if 65 ≤ b.toNat ∧ b.toNat ≤ 70 then some (b.toNat - 55)
  else if 97 ≤ b.toNat ∧ b.toNat ≤ 102 then some (b.toNat - 87)
  else none

/-- A decoder: a percent sign that is not followed by two digits stands for itself. -/
def decodePercent : List UInt8 → List UInt8
  | 37 :: a :: b :: rest =>
    match hexValue a, hexValue b with
    | some x, some y => UInt8.ofNat (16 * x + y) :: decodePercent rest
    | _, _ => 37 :: decodePercent (a :: b :: rest)
  | c :: rest => c :: decodePercent rest
  | [] => []

/-- The bytes that `Url::from_file_path` encodes in a component: the blank, controls, what is not
ASCII, quotes, brackets, and what has a meaning in URLs. -/
def isEncoded (b : UInt8) : Bool :=
  b < 33 || 126 < b || ([34, 35, 37, 60, 62, 63, 92, 96, 123, 125] : List UInt8).contains b

/-- An encoder that goes with it. -/
def encodePercent : Path → List UInt8
  | [] => []
  | b :: p =>
    if isEncoded b then
      37 :: hexDigit (b.toNat / 16) :: hexDigit (b.toNat % 16) :: encodePercent p
    else b :: encodePercent p

theorem hexValue_hexDigit {n : Nat} (h : n < 16) : hexValue (hexDigit n) = some n := by
  revert n
  decide

theorem decodePercent_encodePercent (p : Path) : decodePercent (encodePercent p) = p := by
  induction p with
  | nil => rfl
  | cons b p ih =>
    have hb := b.toNat_lt
    unfold encodePercent
    split
    · rw [decodePercent, hexValue_hexDigit (by omega), hexValue_hexDigit (by omega)]
      dsimp only
      rw [ih, Nat.div_add_mod, UInt8.ofNat_toNat]
    · rename_i hplain
      rw [decodePercent, ih]
      rintro a c rest rfl
      exact absurd (by decide) hplain

theorem decodePercent_eq_nil (s : List UInt8) : decodePercent s = [] ↔ s = [] := by
  constructor
  · intro h
    unfold decodePercent at h
    split at h
    · split at h <;> cases h
    · cases h
    · rfl
  · rintro rfl
    rfl

/-- An environment with this encoding. -/
def encodingEnv : ChooserEnv :=
  { plainEnv with
    fromFilePath := fun p =>
      if Path.isAbsolute p then some (fileScheme ++ encodePercent p) else none
    percentDecode := decodePercent
    percentDecode_eq_nil := decodePercent_eq_nil }

theorem encodingEnv_encodes : EncodesComponents encodingEnv := by
  intro p hp
  refine ⟨encodePercent p, if_pos hp, ?_⟩
  exact congrArg Path.components (decodePercent_encodePercent p)

/-- The documents that the portal has added: the calls that it has not refused, with the place of
the URI they were made for. There is one call for each URI, in order. -/
def documents (answers : Nat → Answers) (n : Nat) (calls : List AddCall) : List (AddCall × Nat) :=
  (calls.zipIdx n).filter fun d => (answers d.2).addNamedFull matches .ok _

/-- The URL of a document is among those that are returned. -/
def Returned (env : ChooserEnv) (guestShareRoot : Path) (answers : Nat → Answers) (urls : List Uri)
    (d : AddCall × Nat) : Prop :=
  ∃ dir basename writable docId, ∃ url ∈ urls, d.1 = addCall dir basename writable ∧
    (answers d.2).addNamedFull = .ok docId ∧
    env.fromFilePath (Path.join guestShareRoot (documentPath docId basename)) = some url

/-- Every document that was added for a request is one whose URL the guest has got; in particular
there is none if the request has failed. -/
structure Answered (env : ChooserEnv) (guestShareRoot : Path) (answers : Nat → Answers)
    (calls : List AddCall) (reply : Option (Nat × Results)) : Prop where
  failed : (∀ map, reply ≠ some (XDG_DESKTOP_PORTAL_RESPONSE_SUCCESS, map)) →
    documents answers 0 calls = []
  returned : ∀ map, reply = some (XDG_DESKTOP_PORTAL_RESPONSE_SUCCESS, map) →
    documents answers 0 calls ≠ [] → ∃ urls, map.lookup "uris" = some (.ofStrings urls) ∧
      ∀ d ∈ documents answers 0 calls, Returned env guestShareRoot answers urls d

/-- A URI that cannot be shared comes after one that has been. -/
def LateFailure (env : ChooserEnv) (guestShareRoot : Path) (answers : Nat → Answers)
    (method : Method) (backend : Except String (Nat × Results)) : Prop :=
  ∃ results writable v before uri after calls urls, backend = .ok (0, results) ∧
    writableOf env method results = .ok writable ∧ results.lookup "uris" = some v ∧
    v.strings? = some (before ++ uri :: after) ∧ before ≠ [] ∧
    Shared env guestShareRoot answers writable 0 before calls urls ∧
    ¬ Shareable env (answers before.length) uri

section

variable {env : ChooserEnv} {guestShareRoot : Path} {answers : Nat → Answers} {writable : Bool}

theorem documents_append (n : Nat) (calls last : List AddCall) :
    documents answers n (calls ++ last) =
      documents answers n calls ++ documents answers (n + calls.length) last := by
  rw [documents, List.zipIdx_append, List.filter_append]
  rfl

/-- Each call that was made for a shared URI has added a document. -/
theorem Shared.documents {n : Nat} {uris urls : List Uri} {calls : List AddCall}
    (h : Shared env guestShareRoot answers writable n uris calls urls) :
    documents answers n calls = calls.zipIdx n ∧
      ∀ d ∈ calls.zipIdx n, Returned env guestShareRoot answers urls d := by
  induction h with
  | nil n => exact ⟨rfl, by simp⟩
  | @cons n uri uris path dir basename docId url calls urls hp hexp hu hrest ih =>
    obtain ⟨hdocs, hreturned⟩ := ih
    refine ⟨?_, ?_⟩
    · simp only [Portal.documents] at hdocs
      simp only [Portal.documents, List.zipIdx_cons, List.filter_cons, hexp.added, if_true, hdocs]
    · intro d hd
      rw [List.zipIdx_cons] at hd
      rcases List.mem_cons.mp hd with rfl | hd
      · exact ⟨dir, basename, writable, docId, url, by simp, rfl, hexp.added, hu⟩
      · obtain ⟨dir, basename, writable, docId, url, hmem, hcall, hadded, hfrom⟩ := hreturned d hd
        exact ⟨dir, basename, writable, docId, url, by simp [hmem], hcall, hadded, hfrom⟩

/-- The call at which the loop stops adds nothing. -/
theorem documents_last {n : Nat} {last : List AddCall}
    (h : last = [] ∨ ∃ call e, last = [call] ∧ (answers n).addNamedFull = .error e) :
    documents answers n last = [] := by
  rcases h with rfl | ⟨call, e, rfl, he⟩
  · rfl
  · simp [documents, he]

/-- What a list of URIs leaves behind: the documents of those before the one that failed. -/
theorem transformUris_documents (hroot : Path.isAbsolute guestShareRoot)
    (hurl : ∀ p, Path.isAbsolute p → (env.fromFilePath p).isSome) (answers : Nat → Answers)
    (v : Value) (writable : Bool) :
    ∃ calls r, transformUris env guestShareRoot answers v writable = (calls, r) ∧
      match r with
      | .ok v' => ∃ uris urls, v.strings? = some uris ∧ v' = .ofStrings urls ∧
          Shared env guestShareRoot answers writable 0 uris calls urls
      | .error _ => calls = [] ∧ v.strings? = none ∨
          ∃ before uri after urls calls', v.strings? = some (before ++ uri :: after) ∧
            Shared env guestShareRoot answers writable 0 before calls' urls ∧
            ¬ Shareable env (answers before.length) uri ∧
            documents answers 0 calls = calls'.zipIdx := by
  unfold transformUris Value.strings?
  cases ha : v.downcastArray with
  | none => exact ⟨_, _, rfl, Or.inl ⟨rfl, rfl⟩⟩
  | some items =>
    dsimp only
    cases hm : Value.toStrings? items with
    | none => exact ⟨_, _, rfl, Or.inl ⟨rfl, hm⟩⟩
    | some uris =>
      simp only [Option.bind_some, hm]
      rcases shareUris_split hroot hurl answers writable 0 uris with ⟨calls, urls, hs, hshared⟩ |
        ⟨before, uri, after, calls, urls, last, fault, rfl, hs, hshared, hun, hlast⟩
      · rw [hs]
        exact ⟨_, _, rfl, uris, urls, rfl, rfl, hshared⟩
      · rw [hs]
        rw [Nat.zero_add] at hun hlast
        have hlen : calls.length = before.length := hshared.length.1
        refine ⟨_, _, rfl, Or.inr ⟨before, uri, after, urls, calls, rfl, hshared, hun, ?_⟩⟩
        rw [documents_append, hshared.documents.1, Nat.zero_add, hlen, documents_last hlast,
          List.append_nil]

/-- A list of URIs stops at one place only. -/
theorem Shared.stop_unique {n : Nat} {before before' after after' urls urls' : List Uri}
    {uri uri' : Uri} {calls calls' : List AddCall}
    (heq : before ++ uri :: after = before' ++ uri' :: after')
    (h : Shared env guestShareRoot answers writable n before calls urls)
    (h' : Shared env guestShareRoot answers writable n before' calls' urls')
    (hun : ¬ Shareable env (answers (n + before.length)) uri)
    (hun' : ¬ Shareable env (answers (n + before'.length)) uri') : before = before' := by
  rcases List.append_eq_append_iff.mp heq with ⟨mid, hb, hmid⟩ | ⟨mid, hb, hmid⟩
  · cases mid with
    | nil => simpa using hb.symm
    | cons first mid =>
      cases hmid
      exact absurd (h'.shareable hb) hun
  · cases mid with
    | nil => simpa using hb
    | cons first mid =>
      cases hmid
      exact absurd (h.shareable hb) hun'

/-- Without a call there is nothing to take back. -/
theorem answered_nil (reply : Option (Nat × Results)) :
    Answered env guestShareRoot answers [] reply :=
  ⟨fun _ => rfl, fun _ _ h => absurd rfl h⟩

/-- Some URI of the list cannot be shared, and is not the first one. -/
def LateUri (env : ChooserEnv) (guestShareRoot : Path) (answers : Nat → Answers) (writable : Bool)
    (v : Value) : Prop :=
  ∃ before uri after calls urls, v.strings? = some (before ++ uri :: after) ∧ before ≠ [] ∧
    Shared env guestShareRoot answers writable 0 before calls urls ∧
    ¬ Shareable env (answers before.length) uri

theorem lateFailure_iff {method : Method} {results : Results} {v : Value}
    (hw : writableOf env method results = .ok writable) (hu : results.lookup "uris" = some v) :
    LateFailure env guestShareRoot answers method (.ok (0, results)) ↔
      LateUri env guestShareRoot answers writable v := by
  constructor
  · intro h
    obtain ⟨results', writable', v', before, uri, after, calls, urls, heq, hw', hu', h⟩ := h
    cases heq
    obtain rfl := Except.ok.inj (hw.symm.trans hw')
    obtain rfl := Option.some.inj (hu.symm.trans hu')
    exact ⟨before, uri, after, calls, urls, h⟩
  · intro h
    obtain ⟨before, uri, after, calls, urls, h⟩ := h
    exact ⟨results, writable, v, before, uri, after, calls, urls, rfl, hw, hu, h⟩

/-- **URIs leave nothing behind but what is returned, exactly if none fails late.** -/
theorem answered_transformUris_iff (hroot : Path.isAbsolute guestShareRoot)
    (hurl : ∀ p, Path.isAbsolute p → (env.fromFilePath p).isSome) (results : Results) (v : Value) :
    let r := transformUris env guestShareRoot answers v writable
    Answered env guestShareRoot answers r.1
        (respond (r.2.map fun uris => some (results.insert "uris" uris))) ↔
      ¬ LateUri env guestShareRoot answers writable v := by
  intro r
  obtain ⟨calls, outcome, ht, hr⟩ := transformUris_documents hroot hurl answers v writable
  change Answered _ _ _ (transformUris env guestShareRoot answers v writable).1
    (respond ((transformUris env guestShareRoot answers v writable).2.map _)) ↔ _
  rw [ht]
  cases outcome with
  | ok v' =>
    obtain ⟨uris, urls, hs, rfl, hshared⟩ := hr
    obtain ⟨hdocs, hreturned⟩ := hshared.documents
    refine ⟨fun _ h => ?_, fun _ => ⟨fun h => absurd rfl (h _), ?_⟩⟩
    · obtain ⟨before, uri, after, calls', urls', hs', -, -, hun⟩ := h
      have huris := Option.some.inj (hs.symm.trans hs')
      exact hun (by simpa using hshared.shareable huris)
    · intro map hmap _
      cases hmap
      rw [hdocs]
      exact ⟨urls, Finmap.lookup_insert .., hreturned⟩
  | error fault =>
    have hfail : ∀ map, respond (.error fault) ≠ some (0, map) := by
      intro map h
      cases fault <;> cases h
    rcases hr with ⟨rfl, hnone⟩ | ⟨before, uri, after, urls, calls', hs, hshared, hun, hdocs⟩
    · refine ⟨fun _ h => ?_, fun _ => answered_nil _⟩
      obtain ⟨before, uri, after, calls', urls', hs', -⟩ := h
      cases hnone.symm.trans hs'
    · have hempty : documents answers 0 calls = [] ↔ before = [] := by
        rw [hdocs, List.zipIdx_eq_nil_iff, ← List.length_eq_zero_iff, hshared.length.1,
          List.length_eq_zero_iff]
      constructor
      · intro h hlate
        obtain ⟨before', uri', after', calls'', urls', hs', hne, hshared', hun'⟩ := hlate
        have heq := Option.some.inj (hs.symm.trans hs')
        have hbefore := hshared.stop_unique heq hshared' (by simpa using hun) (by simpa using hun')
        exact hne (hbefore ▸ hempty.mp (h.failed hfail))
      · intro h
        refine ⟨fun _ => hempty.mpr ?_, fun map hmap => absurd hmap (hfail map)⟩
        by_contra hne
        exact h ⟨before, uri, after, calls', urls, hs, hne, hshared, hun⟩

end

/-- **A failed request leaves nothing behind, and a successful one nothing but what it returns,
exactly if no URI that cannot be shared comes after one that has been.** -/
theorem handle_answered_iff {env : ChooserEnv} {guestShareRoot : Path}
    (hroot : Path.isAbsolute guestShareRoot)
    (hurl : ∀ p, Path.isAbsolute p → (env.fromFilePath p).isSome) (answers : Nat → Answers)
    (method : Method) (backend : Request → Except String (Nat × Results)) (request : Request) :
    let r := handle env guestShareRoot answers method backend request
    Answered env guestShareRoot answers r.1 r.2 ↔
      ¬ LateFailure env guestShareRoot answers method (backend request) := by
  simp only [handle_eq]
  generalize backend request = reply
  rcases @fileImpl_cases env guestShareRoot answers method reply with
    ⟨r, hfile, -, hnone⟩ | ⟨results, writable, v, rfl, hw, hu, hfile⟩
  · rw [hfile]
    refine ⟨fun _ h => ?_, fun _ => answered_nil _⟩
    obtain ⟨results, writable, v, before, uri, after, calls, urls, heq, hw, hu, -⟩ := h
    exact hnone results writable v heq hw hu
  · rw [hfile, lateFailure_iff hw hu]
    exact answered_transformUris_iff hroot hurl results v

/-- The backend answers with these URIs. -/
def manyUris (uris : List Uri) (_ : Request) : Except String (Nat × Results) :=
  .ok (0, Finmap.singleton "uris" (.ofStrings uris))

theorem handle_answered_one_file :
    let answers : Nat → Answers := fun _ => ⟨true, true, none, .ok (ascii ['7'])⟩
    let uris := [fileScheme ++ ascii ['/', 'a', '/', 'b']]
    let r := handle plainEnv (ascii ['/', 'h']) answers .openFile (manyUris uris) emptyRequest
    Answered plainEnv (ascii ['/', 'h']) answers r.1 r.2 := by
  intro answers uris
  refine (handle_answered_iff (by decide) plainEnv_url answers .openFile (manyUris uris)
    emptyRequest).mpr ?_
  intro ⟨results, writable, v, before, uri, after, calls, urls, heq, hw, hv, hs, hne, hshared, hun⟩
  cases heq
  rw [Finmap.lookup_singleton_eq] at hv
  cases hv
  have huris : uris = before ++ uri :: after :=
    Option.some.inj ((strings?_ofStrings uris).symm.trans hs)
  have hlen := congrArg List.length huris
  have hpos := List.length_pos_iff.mpr hne
  simp only [uris, List.length_cons, List.length_nil, List.length_append] at hlen
  omega

/-- Two files were chosen, and the second one has no `file://` URI: the guest is told that the
request has failed, and the first file has been shared with it. -/
theorem handle_keeps_document :
    let answers : Nat → Answers := fun _ => ⟨true, true, none, .ok (ascii ['7'])⟩
    let uris :=
      [fileScheme ++ ascii ['/', 'a', '/', 'b'], ascii ['t', 'r', 'a', 's', 'h', ':', '/']]
    let r := handle plainEnv (ascii ['/', 'h']) answers .openFile (manyUris uris) emptyRequest
    r.2 = some (XDG_DESKTOP_PORTAL_RESPONSE_OTHER, ∅) ∧
      documents answers 0 r.1 = [(addCall (ascii ['/', 'a']) (ascii ['b']) false, 0)] ∧
      ¬ Answered plainEnv (ascii ['/', 'h']) answers r.1 r.2 := by
  intro answers uris r
  have hreply : r.2 = some (XDG_DESKTOP_PORTAL_RESPONSE_OTHER, ∅) := rfl
  have hdocs : documents answers 0 r.1 =
      [(addCall (ascii ['/', 'a']) (ascii ['b']) false, 0)] := rfl
  refine ⟨hreply, hdocs, fun h => ?_⟩
  have hnone : documents answers 0 r.1 = [] := h.failed fun map hmap => by
    cases hreply.symm.trans hmap
  cases hdocs.symm.trans hnone

/-! ## The only URI that leads to a panic -/

/-- What a file system says about paths. The empty path is not a file, the root is a directory, and
so is a path that ends in `.` or `..` if the directory it is in can be opened. -/
structure FileSystem where
  found : Path → Bool
  isFile : Path → Bool
  openDir : Path → Option Errno
  found_empty : found [] = false
  root : ∀ p, Path.isAbsolute p → Path.names p = [] → found p ∧ ¬ isFile p
  dots : ∀ p dir last, Path.parent p = some dir → openDir dir = none →
    (Path.components p).getLast? = some last → last = ascii ['.'] ∨ last = ascii ['.', '.'] →
    found p ∧ ¬ isFile p

/-- The answers to the questions about one path. -/
def FileSystem.answers (fs : FileSystem) (path : Path) (addNamedFull : Except String (List UInt8)) :
    Answers :=
  ⟨fs.found path, fs.isFile path, (Path.parent path).bind fs.openDir, addNamedFull⟩

/-- The answers for a list of URIs. The file system may be another one for each of them. -/
def systemAnswers (env : ChooserEnv) (fs : Nat → FileSystem)
    (added : Nat → Except String (List UInt8)) (uris : List Uri) (i : Nat) : Answers :=
  (fs i).answers ((uris[i]?.bind (uriPath env)).getD []) (added i)

/-- A path without a final name that has a parent ends in `.` or `..`. -/
theorem getLast?_components_of_fileName {p : Path} (h : Path.fileName p = none)
    (hparent : Path.parent p ≠ none) :
    (Path.components p).getLast? = some (ascii ['.']) ∨
      (Path.components p).getLast? = some (ascii ['.', '.']) := by
  rw [Path.components, Path.filter_parts]
  rcases Path.fileName_eq_none h with hnames | hlast
  · left
    rcases Path.parent_cases p with ⟨-, hp⟩ | ⟨front, hne, -⟩
    · have hstart : Path.start p = 1 ∧ ¬ Path.isAbsolute p := by
        by_contra hnot
        exact hparent (hp.trans (if_neg hnot))
      simp [hnames, hstart.1, Path.take_one_of_start hstart.2 hstart.1]
    · exact absurd hnames hne
  · right
    rw [List.getLast?_append, hlast]
    rfl

/-- **An `unwrap` in `share_file` fails exactly on the empty path.** -/
theorem FileSystem.unshareable_iff (fs : FileSystem) (path : Path)
    (added : Except String (List UInt8)) :
    Unshareable (fs.answers path added) path ↔ path = [] := by
  constructor
  · intro ⟨hregular, hpath⟩
    by_contra hne
    apply hregular
    cases hparent : Path.parent path with
    | none =>
      rcases Path.parent_eq_none hparent with hnil | ⟨habs, hnames⟩
      · exact absurd hnil hne
      · exact fs.root path habs hnames
    | some dir =>
      rcases hpath with hnone | ⟨hopen, hname⟩
      · cases hparent.symm.trans hnone
      · have hopen : fs.openDir dir = none := by simpa [answers, hparent] using hopen
        rcases getLast?_components_of_fileName hname (by simp [hparent]) with hlast | hlast
        · exact fs.dots path dir _ hparent hopen hlast (Or.inl rfl)
        · exact fs.dots path dir _ hparent hopen hlast (Or.inr rfl)
  · intro hnil
    subst hnil
    exact ⟨fun h => by simp [answers, fs.found_empty] at h, Or.inl rfl⟩

/-- Only `file://` stands for the empty path. -/
theorem uriPath_eq_nil {env : ChooserEnv} {uri : Uri} :
    uriPath env uri = some [] ↔ uri = fileScheme := by
  unfold uriPath
  split
  · rename_i h
    obtain ⟨s, rfl⟩ := h
    simp only [List.drop_left, Option.some.injEq, env.percentDecode_eq_nil]
    exact List.append_right_eq_self.symm
  · rename_i h
    constructor
    · intro hnone
      cases hnone
    · intro hs
      exact absurd (hs ▸ List.prefix_rfl) h

/-- The URI `file://` is reached: all URIs before it have been shared. -/
def ReachesEmpty (env : ChooserEnv) (guestShareRoot : Path) (answers : Nat → Answers)
    (writable : Bool) (uris : List Uri) : Prop :=
  ∃ before after calls urls, uris = before ++ fileScheme :: after ∧
    Shared env guestShareRoot answers writable 0 before calls urls

/-- On a file system, only `file://` blocks the loop. -/
theorem blocked_iff_reachesEmpty {env : ChooserEnv} {guestShareRoot : Path} {writable : Bool}
    (fs : Nat → FileSystem) (added : Nat → Except String (List UInt8)) (uris : List Uri) :
    Blocked env guestShareRoot (systemAnswers env fs added uris) writable 0 uris ↔
      ReachesEmpty env guestShareRoot (systemAnswers env fs added uris) writable uris := by
  have hanswers : ∀ {before after uri path}, uris = before ++ uri :: after →
      uriPath env uri = some path →
      systemAnswers env fs added uris (0 + before.length) =
        (fs before.length).answers path (added before.length) := by
    intro before after uri path heq hpath
    simp [systemAnswers, heq, hpath]
  constructor
  · intro ⟨before, uri, after, path, calls, urls, heq, hshared, hpath, hun⟩
    rw [hanswers heq hpath, FileSystem.unshareable_iff] at hun
    rw [hun, uriPath_eq_nil] at hpath
    exact ⟨before, after, calls, urls, hpath ▸ heq, hshared⟩
  · intro ⟨before, after, calls, urls, heq, hshared⟩
    have hpath : uriPath env fileScheme = some [] := uriPath_eq_nil.mpr rfl
    refine ⟨before, fileScheme, after, [], calls, urls, heq, hshared, hpath, ?_⟩
    rw [hanswers heq hpath, FileSystem.unshareable_iff]

/-- **Whatever the URIs are, none of the `unwrap`s fails, exactly if `file://` is not reached.** -/
theorem transformUris_safe_iff {env : ChooserEnv} {guestShareRoot : Path}
    (hroot : Path.isAbsolute guestShareRoot)
    (hurl : ∀ p, Path.isAbsolute p → (env.fromFilePath p).isSome) (fs : Nat → FileSystem)
    (added : Nat → Except String (List UInt8)) (uris : List Uri) (writable : Bool) :
    (∀ reason, (transformUris env guestShareRoot (systemAnswers env fs added uris) (.ofStrings uris)
        writable).2 ≠ .error (.panic reason)) ↔
      ¬ ReachesEmpty env guestShareRoot (systemAnswers env fs added uris) writable uris := by
  rw [← blocked_iff_reachesEmpty]
  obtain ⟨calls, r, ht, -, hr⟩ := transformUris_cases hroot hurl (systemAnswers env fs added uris)
    (.ofStrings uris) writable
  rw [ht]
  match r, hr with
  | .ok v, hr =>
    obtain ⟨uris', urls, hs, -, -, hnot⟩ := hr
    obtain rfl := Option.some.inj ((strings?_ofStrings uris).symm.trans hs)
    exact ⟨fun _ => hnot, fun _ => nofun⟩
  | .error (.err e), hr => exact ⟨fun _ => hr uris (strings?_ofStrings uris), fun _ => nofun⟩
  | .error (.panic reason), hr =>
    obtain ⟨uris', hs, hblocked⟩ := hr
    obtain rfl := Option.some.inj ((strings?_ofStrings uris).symm.trans hs)
    exact ⟨fun h => absurd rfl (h reason), fun h => absurd hblocked h⟩

/-- A file system in which everything that has a name is a directory. -/
def onlyDirectories : FileSystem where
  found := fun p => p ≠ []
  isFile := fun _ => false
  openDir := fun _ => none
  found_empty := rfl
  root := by
    intro p hp _
    have hne : p ≠ [] := fun e => by simp [e, Path.isAbsolute] at hp
    simp [hne]
  dots := by
    intro p dir last hparent _ _ _
    have hne : p ≠ [] := fun e => by subst e; cases hparent
    simp [hne]

theorem transformUris_safe_dots :
    let fs : Nat → FileSystem := fun _ => onlyDirectories
    let added : Nat → Except String (List UInt8) := fun _ => .ok (ascii ['7'])
    let uris := [fileScheme ++ ascii ['a', '/', '.', '.', '/', '/'], fileScheme]
    ∀ reason, (transformUris plainEnv (ascii ['/', 'h']) (systemAnswers plainEnv fs added uris)
      (.ofStrings uris) true).2 ≠ .error (.panic reason) := by
  intro fs added uris
  refine (transformUris_safe_iff (by decide) plainEnv_url fs added uris true).mpr ?_
  intro ⟨before, after, calls, urls, heq, hshared⟩
  cases hshared with
  | nil =>
    have hfirst : fileScheme ++ ascii ['a', '/', '.', '.', '/', '/'] = fileScheme :=
      (List.cons.inj heq).1
    revert hfirst
    decide
  | cons hp hexp hu hrest =>
    obtain rfl := (List.cons.inj heq).1
    cases hp
    exact absurd hexp.regular (by decide)

/-- One chosen file with the URI `file://` makes the portal panic. -/
theorem transformUris_empty_path_panics :
    let fs : Nat → FileSystem := fun _ => onlyDirectories
    let added : Nat → Except String (List UInt8) := fun _ => .ok (ascii ['7'])
    (transformUris plainEnv (ascii ['/', 'h']) (systemAnswers plainEnv fs added [fileScheme])
      (.ofStrings [fileScheme]) true).2 = .error (.panic "parent") := by
  rfl

end Spectrum.Portal

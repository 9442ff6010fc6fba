import NovaMux.Lib.Except
import NovaMux.Runtime.ConfigFile
import NovaMux.Theorems.Config

/-! Loading a configuration agrees with parsing the whole of its file, though it reads no more than a byte over the limit:
    a file that grows, fails or is cut on the way is never taken for a shorter one. -/

namespace NovaMux.Config

open ByteStream

variable {file : ConfigFile} {length : Nat} {source : String} {config : Config}

theorem length_bytes (source : String) : (Utf8.bytes source).length = Str.size source.toList := by
  rw [Utf8.bytes_eq]
  induction source.toList with
  | nil => rfl
  | cons c text ih => rw [List.flatMap_cons, List.length_append, String.length_utf8EncodeChar, Str.size_cons, ih]

/-- What the file makes of the configuration when all of it is read. -/
theorem loadPath_eq (hopening : file.opening = none) (hmetadata : file.metadata = .ok (true, length)) :
    loadPath file =
      if length > maxConfigBytes ∨ (whole file.events).1.length > maxConfigBytes then some (.error (.config .tooLarge))
      else
        match (whole file.events).2 with
        | .error error => some (.error (.ofIo error))
        | .ok () =>
          match Utf8.text? (whole file.events).1 with
          | none => some (.error (.config (.invalid 1 "configuration must be valid UTF-8")))
          | some source => (parse source).map (Except.mapError .config) := by
  simp only [loadPath, hopening, hmetadata, Bool.not_true, Bool.false_eq_true, if_false]
  by_cases hlength : length > maxConfigBytes
  · rw [if_pos hlength, if_pos (Or.inl hlength)]
  · rw [if_neg hlength, readToEnd_eq]
    by_cases hlong : (whole file.events).1.length > maxConfigBytes
    · rw [if_pos (Nat.succ_le_of_lt hlong), if_pos (Or.inr hlong)]
      simp only
      rw [if_pos]
      rw [List.length_take]
      omega
    · rw [if_neg (by omega), if_neg (not_or.mpr ⟨hlength, hlong⟩)]
      cases (whole file.events).2 with
      | error error => rfl
      | ok => exact if_neg hlong

theorem parse_tooLarge (h : Str.size source.toList > maxConfigBytes) : parse source = some (.error .tooLarge) := by
  rw [parse, if_pos h]

/-- A text in a file is loaded as it is parsed, however the reads cut it. -/
theorem loadPath_flows (hopening : file.opening = none) (hmetadata : file.metadata = .ok (true, length))
    (hlength : length ≤ maxConfigBytes ∨ maxConfigBytes < (Utf8.bytes source).length) (hflows : Flows file.events)
    (hcontent : content file.events = Utf8.bytes source) :
    loadPath file = (parse source).map (Except.mapError .config) := by
  rw [length_bytes] at hlength
  rw [loadPath_eq hopening hmetadata, whole_of_flows hflows, hcontent, length_bytes]
  by_cases hlong : Str.size source.toList > maxConfigBytes
  · rw [if_pos (Or.inr hlong), parse_tooLarge hlong]
    rfl
  · rw [if_neg (not_or.mpr ⟨Nat.not_lt.mpr (hlength.resolve_right hlong), hlong⟩)]
    simp only [Utf8.text?_eq_some.mpr rfl]

theorem loadPath_ok (h : loadPath file = some (.ok config)) : file.opening = some .notFound ∧ config = .default ∨
    ∃ source, whole file.events = (Utf8.bytes source, .ok ()) ∧ parse source = some (.ok config) := by
  cases hopening : file.opening with
  | some failure =>
    rw [loadPath, hopening] at h
    cases failure with
    | notFound =>
      cases h
      exact Or.inl ⟨rfl, rfl⟩
    | other message => cases h
  | none =>
    refine Or.inr ?_
    rcases hmetadata : file.metadata with message | ⟨isFile, length⟩
    · rw [loadPath, hopening, hmetadata] at h
      cases h
    · cases isFile with
      | false =>
        rw [loadPath, hopening, hmetadata] at h
        cases h
      | true =>
        rw [loadPath_eq hopening hmetadata] at h
        split at h
        · cases h
        · split at h
          · cases h
          · next hend =>
            split at h
            · cases h
            · next source hsource =>
              obtain ⟨result, hparse, hresult⟩ := Option.map_eq_some_iff.mp h
              refine ⟨source, Prod.ext (Utf8.text?_eq_some.mp hsource) hend, ?_⟩
              rw [hparse, Except.mapError_eq_ok.mp hresult]

theorem isAbsolute_join {path : String} (h : isAbsolute path = true) (name : String) : isAbsolute (join path name) = true := by
  obtain ⟨rest, hrest⟩ : ∃ rest, path.toList = '/' :: rest := List.head?_eq_some_iff.mp (of_decide_eq_true h)
  unfold join
  split
  · simp [isAbsolute, hrest]
  · simp [isAbsolute, hrest]

theorem isAbsolute_platformPath {env : String → Option String} {path : String} (h : platformPath env = some path) :
    isAbsolute path = true := by
  unfold platformPath at h
  split at h
  · next root hroot =>
    cases h
    exact isAbsolute_join (isAbsolute_join (Option.filter_eq_some_iff.mp hroot).2 _) _
  · obtain ⟨home, hhome, rfl⟩ := Option.map_eq_some_iff.mp h
    exact isAbsolute_join (isAbsolute_join (isAbsolute_join (Option.filter_eq_some_iff.mp hhome).2 _) _) _

/-- A text at the platform's path is loaded as all of it is parsed, however the reads cut and interrupt it and also where
    it is too large, unless its length is given as too large when it is not. Whatever the system answers, only an absolute
    path is read, and a configuration that is loaded is the default one, with no path or no file at it, or comes from the
    whole of the file. -/
theorem load_whole (env : String → Option String) (files : String → ConfigFile) :
    (∀ path source length, platformPath env = some path → (files path).opening = none →
      (files path).metadata = .ok (true, length) → (length ≤ maxConfigBytes ∨ maxConfigBytes < (Utf8.bytes source).length) →
      Flows (files path).events → content (files path).events = Utf8.bytes source →
      load env files = (parse source).map (Except.mapError .config)) ∧
    (∀ path, platformPath env = some path → isAbsolute path = true) ∧
    ∀ config, load env files = some (.ok config) →
      (∀ path, platformPath env = some path → (files path).opening = some .notFound) ∧ config = .default ∨
        ∃ path source, platformPath env = some path ∧ whole (files path).events = (Utf8.bytes source, .ok ()) ∧
          parse source = some (.ok config) := by
  refine ⟨fun path source length hpath hopening hmetadata hlength hflows hcontent => ?_,
    fun _ hpath => isAbsolute_platformPath hpath, fun config h => ?_⟩
  · rw [load, hpath]
    exact loadPath_flows hopening hmetadata hlength hflows hcontent
  · unfold load at h
    split at h
    · next path hpath =>
      rcases loadPath_ok h with ⟨hmissing, hdefault⟩ | ⟨source, hwhole, hparse⟩
      · exact Or.inl ⟨fun other hother => Option.some.inj (hpath.symm.trans hother) ▸ hmissing, hdefault⟩
      · exact Or.inr ⟨path, source, hpath, hwhole, hparse⟩
    · next hpath =>
      cases h
      exact Or.inl ⟨fun path hother => absurd (hpath.symm.trans hother) (by simp), rfl⟩

end NovaMux.Config

import RunNginx.Config.Directives
import RunNginx.Proxy

/-!
# The path an upstream is asked for

A `proxy_pass` URL without a path leaves the path of the request alone, and one with a path
takes the place of the location.  The URL library writes a slash for a path that is not
there, and the code asks that path which of the two it has.

`path_mapping_iff`: with a path in the URL the mapping is as documented.  Without one it is
only where putting a slash for the location makes no difference.
-/

namespace RunNginx
namespace Proxy

open ByteString ConfigParser

section Urls

/-- A slash of an http URL, written either way. -/
def isUrlSlash (b : UInt8) : Bool :=
  b == 47 || b == 92

/-- The text behind the scheme and its slashes.  Tabs and line breaks do not count. -/
def behindScheme (raw : Bytes) : Bytes :=
  let text := raw.filter fun b => b != 9 && b != 10 && b != 13
  ((text.dropWhile (· != 58)).drop 1).dropWhile isUrlSlash

/-- A path is written in the URL, before its query and fragment. -/
def WritesPath (raw : Bytes) : Prop :=
  ∃ b ∈ (behindScheme raw).takeWhile fun b => b != 63 && b != 35, isUrlSlash b = true

instance (raw : Bytes) : Decidable (WritesPath raw) := by
  unfold WritesPath
  infer_instance

/-- What the library says of the paths of http URLs. -/
structure HttpPaths (lib : Libraries) : Prop where
  absolute : ∀ raw url, lib.parseUrl raw = some url →
    url.scheme = ascii "http" ∨ url.scheme = ascii "https" →
    ∃ rest, url.path = PathText.slash :: rest
  unwritten : ∀ raw url, lib.parseUrl raw = some url →
    url.scheme = ascii "http" ∨ url.scheme = ascii "https" →
    ¬ WritesPath raw → url.path = [PathText.slash]

/-- Only http URLs are accepted. -/
theorem parseProxyPass_scheme
    {lib : Libraries} {raw : Bytes} {accepted : ProxyConfig}
    (h : parseProxyPass lib raw = .ok accepted) :
    accepted.upstream.scheme = ascii "http" ∨ accepted.upstream.scheme = ascii "https" := by
  unfold parseProxyPass at h
  dsimp only at h
  split at h
  · cases h
  split at h
  · cases h
  rename_i url _ hscheme
  repeat' split at h
  all_goals cases h
  by_cases hhttp : url.scheme = ascii "http"
  · exact .inl hhttp
  · exact .inr (Decidable.byContradiction fun hhttps => hscheme ⟨hhttp, hhttps⟩)

end Urls

section Mapping

variable {cfg : ProxyConfig} {locPrefix behind : Bytes}

@[simp] theorem isSlash_slash :
    isSlash PathText.slash = true :=
  rfl

theorem isSlash_iff
    {b : UInt8} :
    isSlash b = true ↔ b = PathText.slash := by
  simp [isSlash]

theorem trimEndSlashes_slash :
    trimEndSlashes [PathText.slash] = [] :=
  rfl

theorem dropWhile_isSlash_eq_self_iff
    {s : Bytes} :
    s.dropWhile isSlash = s ↔ s.head? ≠ some PathText.slash := by
  cases s with
  | nil => simp
  | cons b s =>
      rw [List.head?_cons, ne_eq, Option.some.injEq, ← isSlash_iff]
      constructor
      · intro h hb
        rw [List.dropWhile_cons_of_pos hb] at h
        have hle := (List.dropWhile_suffix isSlash (l := s)).length_le
        rw [h, List.length_cons] at hle
        omega
      · exact fun hb => List.dropWhile_cons_of_neg hb

/-- A path behind the location is put behind the path of the URL. -/
theorem buildUpstreamPath_append
    (hpath : cfg.upstream.path ≠ []) :
    buildUpstreamPath cfg (locPrefix ++ behind) locPrefix =
      trimEndSlashes cfg.upstream.path ++ PathText.slash :: behind.dropWhile isSlash := by
  have hstrip : stripPrefix locPrefix (locPrefix ++ behind) = some behind :=
    stripPrefix_eq_some_iff.mpr rfl
  have hslash : ascii "/" = [PathText.slash] := by decide
  rw [buildUpstreamPath, if_pos (.inr hpath), hstrip, Option.getD_some, hslash,
    List.append_assoc, List.singleton_append]

/-- A slash in place of the location makes no difference. -/
def SlashForLocation (locPrefix behind : Bytes) : Prop :=
  locPrefix = [PathText.slash] ∧ behind.head? ≠ some PathText.slash ∨
    locPrefix = [] ∧ ∃ rest, behind = PathText.slash :: rest ∧ rest.head? ≠ some PathText.slash

theorem slash_append_eq_iff :
    PathText.slash :: behind.dropWhile isSlash = locPrefix ++ behind ↔
      SlashForLocation locPrefix behind := by
  constructor
  · intro h
    cases locPrefix with
    | nil =>
        cases behind with
        | nil => cases h
        | cons b rest =>
            obtain ⟨rfl, htail⟩ := List.cons.inj h
            rw [List.dropWhile_cons_of_pos isSlash_slash] at htail
            exact .inr ⟨rfl, rest, rfl, dropWhile_isSlash_eq_self_iff.mp htail⟩
    | cons b more =>
        rw [List.cons_append] at h
        obtain ⟨rfl, htail⟩ := List.cons.inj h
        -- What is left of the rest is no longer than the rest.
        have hle := (List.dropWhile_suffix isSlash (l := behind)).length_le
        rw [htail, List.length_append] at hle
        obtain rfl : more = [] := List.length_eq_zero_iff.mp (by omega)
        exact .inl ⟨rfl, dropWhile_isSlash_eq_self_iff.mp htail⟩
  · rintro (⟨rfl, hhead⟩ | ⟨rfl, rest, rfl, hhead⟩)
    · rw [dropWhile_isSlash_eq_self_iff.mpr hhead, List.singleton_append]
    · rw [List.dropWhile_cons_of_pos isSlash_slash, dropWhile_isSlash_eq_self_iff.mpr hhead,
        List.nil_append]

/-- The documented mapping, for the URL `raw` of `cfg`. -/
structure Mapped (raw : Bytes) (cfg : ProxyConfig) (locPrefix behind : Bytes) : Prop where
  without_path : ¬ WritesPath raw →
    buildUpstreamPath cfg (locPrefix ++ behind) locPrefix = locPrefix ++ behind
  with_path : WritesPath raw →
    buildUpstreamPath cfg (locPrefix ++ behind) locPrefix =
      trimEndSlashes cfg.upstream.path ++ PathText.slash :: behind.dropWhile isSlash

/-- The mapping is as documented exactly if the URL has a path, or a slash stands for it. -/
theorem path_mapping_iff
    {lib : Libraries} (hlib : HttpPaths lib) {raw : Bytes} {accepted : ProxyConfig}
    (hpass : parseProxyPass lib raw = .ok accepted) (hup : cfg.upstream = accepted.upstream)
    (locPrefix behind : Bytes) :
    Mapped raw cfg locPrefix behind ↔ WritesPath raw ∨ SlashForLocation locPrefix behind := by
  have hscheme := parseProxyPass_scheme hpass
  have hurl := (parseProxyPass_ok hpass).1
  rw [← hup] at hscheme hurl
  obtain ⟨tail, htail⟩ := hlib.absolute raw _ hurl hscheme
  have hforwarded := @buildUpstreamPath_append cfg locPrefix behind (by simp [htail])
  by_cases hwrites : WritesPath raw
  · exact iff_of_true ⟨fun hno => absurd hwrites hno, fun _ => hforwarded⟩ (.inl hwrites)
  · have hslash := hlib.unwritten raw _ hurl hscheme hwrites
    rw [hslash, trimEndSlashes_slash, List.nil_append] at hforwarded
    have hiff : Mapped raw cfg locPrefix behind ↔
        buildUpstreamPath cfg (locPrefix ++ behind) locPrefix = locPrefix ++ behind :=
      ⟨fun h => h.without_path hwrites, fun h => ⟨fun _ => h, fun hyes => absurd hyes hwrites⟩⟩
    rw [hiff, hforwarded, slash_append_eq_iff]
    simp [hwrites]

end Mapping

section Example

/-- A URL library that knows one host, with a path and without. -/
def pathLibrary : Libraries where
  parseUrl := fun raw =>
    if raw = ascii "http://app.example" then
      some ⟨ascii "http", some (.domain (ascii "app.example")), none, ascii "/"⟩
    else if raw = ascii "http://app.example/base/" then
      some ⟨ascii "http", some (.domain (ascii "app.example")), none, ascii "/base/"⟩
    else none
  compileRegex := fun _ => none
  parseFloat := fun _ => none

theorem httpPaths_pathLibrary :
    HttpPaths pathLibrary := by
  have hurls : ∀ raw url, pathLibrary.parseUrl raw = some url →
      raw = ascii "http://app.example" ∧ url.path = ascii "/" ∨
        raw = ascii "http://app.example/base/" ∧ url.path = ascii "/base/" := by
    intro raw url h
    simp only [pathLibrary] at h
    split at h
    · rename_i hraw
      exact .inl ⟨hraw, (congrArg Url.path (Option.some.inj h)).symm⟩
    · split at h
      · rename_i hraw
        exact .inr ⟨hraw, (congrArg Url.path (Option.some.inj h)).symm⟩
      · cases h
  refine ⟨fun raw url h _ => ?_, fun raw url h _ hno => ?_⟩
  · rcases hurls raw url h with ⟨-, hpath⟩ | ⟨-, hpath⟩
    · exact ⟨[], hpath.trans (by decide)⟩
    · exact ⟨ascii "base/", hpath.trans (by decide)⟩
  · rcases hurls raw url h with ⟨-, hpath⟩ | ⟨rfl, -⟩
    · exact hpath.trans (by decide)
    · exact absurd (by decide : WritesPath (ascii "http://app.example/base/")) hno

/-- The proxy of a URL of one host. -/
def exampleProxy (path : Bytes) : ProxyConfig where
  upstream := ⟨ascii "http", some (.domain (ascii "app.example")), none, path⟩
  setHeaders := []
  readTimeout := 60
  connectTimeout := 5
  buffering := true
  http2 := false
  allowInternal := false

/-- The path of the URL takes the place of the location. -/
theorem path_mapping_example :
    Mapped (ascii "http://app.example/base/") (exampleProxy (ascii "/base/"))
      (ascii "/app/") (ascii "x") := by
  have hpass : parseProxyPass pathLibrary (ascii "http://app.example/base/") =
      .ok (exampleProxy (ascii "/base/")) := by rfl
  exact (path_mapping_iff httpPaths_pathLibrary hpass rfl (ascii "/app/") (ascii "x")).mpr
    (.inl (by decide))

/-- A URL without a path loses the location. -/
theorem location_stripped :
    parseProxyPass pathLibrary (ascii "http://app.example") = .ok (exampleProxy (ascii "/")) ∧
      HttpPaths pathLibrary ∧ ¬ WritesPath (ascii "http://app.example") ∧
      buildUpstreamPath (exampleProxy (ascii "/")) (ascii "/app/x") (ascii "/app/") =
        ascii "/x" ∧
      ¬ Mapped (ascii "http://app.example") (exampleProxy (ascii "/"))
        (ascii "/app/") (ascii "x") := by
  refine ⟨by rfl, httpPaths_pathLibrary, by decide, by decide, fun h => ?_⟩
  exact absurd (h.without_path (by decide)) (by decide)

end Example

end Proxy
end RunNginx

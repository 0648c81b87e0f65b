import Zakuro.HttpProxy

/-!
# ProxyUrl

What `ParseUrl` makes of the URLs of an upstream server. The first ':' and the
first '/' behind the scheme decide, so a host with colons of its own is cut.
-/

/-- A host of a URL: a name or an IPv4 address, or what stands between the brackets
of an IPv6 literal. -/
inductive UrlHost where
  | name (text : List Char) (nonempty : text ≠ []) (noColon : ':' ∉ text) (noSlash : '/' ∉ text)
  | literal (address : List Char) (colon : ':' ∈ address) (noSlash : '/' ∉ address)

namespace UrlHost

def text : UrlHost → List Char
  | name text _ _ _ => text
  | literal address _ _ => '[' :: (address ++ [']'])

def isName : UrlHost → Bool
  | name _ _ _ _ => true
  | literal _ _ _ => false

end UrlHost

structure UrlPort where
  digits : List Char
  nonempty : digits ≠ []
  decimal : ∀ c ∈ digits, c.isDigit = true

/-- `scheme://host[:port][/path]` with the scheme http or https. -/
structure ProxyUrl where
  useSsl : Bool
  host : UrlHost
  port : Option UrlPort
  path : Option (List Char)

namespace ProxyUrl

variable (u : ProxyUrl)

def scheme : List Char := if u.useSsl then "https://".toList else "http://".toList

def portText : List Char :=
  match u.port with
  | some port => ':' :: port.digits
  | none => []

def pathText : List Char :=
  match u.path with
  | some path => '/' :: path
  | none => []

/-- The URL without its scheme. -/
def authority : List Char := u.host.text ++ (u.portText ++ u.pathText)

def text : String := String.ofList (u.scheme ++ u.authority)

/-- The port of a scheme: the default of this URL, or of a URL with the other scheme. -/
def schemePort (useSsl : Bool) : String := if useSsl then "443" else "80"

/-- The port that the URL names, or the default port of its scheme. -/
def portOrDefault : String :=
  match u.port with
  | some port => String.ofList port.digits
  | none => schemePort u.useSsl

/-- The host, with the port behind it where that is not the default of the scheme. -/
def hostHeader : String :=
  if u.portOrDefault = schemePort u.useSsl then String.ofList u.host.text
  else String.ofList u.host.text ++ ":" ++ u.portOrDefault

/-- The proxy with the members that the URL describes. -/
def described (p : HttpProxy) : HttpProxy :=
  { p with
    useSsl := u.useSsl
    host := String.ofList u.host.text
    port := u.portOrDefault
    hostHeader := u.hostHeader }

end ProxyUrl

namespace HttpProxy

/-! ## The split into host and port -/

theorem idxOf?_append_of_notMem {c : Char} {front : List Char} (h : c ∉ front) (back : List Char) :
    (front ++ back).idxOf? c = (back.idxOf? c).map (front.length + ·) := by
  induction front with
  | nil => simp
  | cons d front ih =>
    simp only [List.mem_cons, not_or] at h
    have hd : (d == c) = false := by simp [Ne.symm h.1]
    rw [List.cons_append, List.idxOf?_cons, ih h.2]
    simp only [hd, Bool.false_eq_true, if_false, Option.map_map, List.length_cons]
    congr 1
    funext i
    simp only [Function.comp_apply]
    omega

theorem idxOf?_append_cons {c : Char} {front : List Char} (h : c ∉ front) (back : List Char) :
    (front ++ c :: back).idxOf? c = some front.length := by
  rw [idxOf?_append_of_notMem h, List.idxOf?_cons]
  simp

theorem drop_separator (front back : List Char) (c : Char) :
    (front ++ c :: back).drop (front.length + 1) = back := by
  rw [← List.drop_drop, List.drop_left, List.drop_one, List.tail_cons]

section Split

variable {host port : List Char} (hc : ':' ∉ host) (hs : '/' ∉ host)
include hc hs

theorem splitHost_host : splitHost host = (host, []) := by
  have h₁ : host.idxOf? ':' = none := List.idxOf?_eq_none_iff.mpr hc
  have h₂ : host.idxOf? '/' = none := List.idxOf?_eq_none_iff.mpr hs
  simp only [splitHost, h₁, h₂]

theorem splitHost_path (path : List Char) : splitHost (host ++ '/' :: path) = (host, []) := by
  have h₂ : (host ++ '/' :: path).idxOf? '/' = some host.length := idxOf?_append_cons hs path
  have h₁ := idxOf?_append_of_notMem hc ('/' :: path)
  cases hi : ('/' :: path).idxOf? ':' with
  | none =>
    simp only [hi, Option.map_none] at h₁
    simp only [splitHost, h₁, h₂, List.take_left]
  | some i =>
    simp only [hi, Option.map_some] at h₁
    have hge : ¬host.length + i < host.length := by omega
    simp only [splitHost, h₁, h₂, if_neg hge, List.take_left]

theorem splitHost_port (hp : '/' ∉ port) : splitHost (host ++ ':' :: port) = (host, port) := by
  have h₁ : (host ++ ':' :: port).idxOf? ':' = some host.length := idxOf?_append_cons hc port
  have h₂ : (host ++ ':' :: port).idxOf? '/' = none := by
    simp only [List.idxOf?_eq_none_iff, List.mem_append, List.mem_cons, hs, hp]
    decide
  simp only [splitHost, h₁, h₂, List.take_left, drop_separator]

theorem splitHost_port_path (hp : '/' ∉ port) (path : List Char) :
    splitHost (host ++ ':' :: (port ++ '/' :: path)) = (host, port) := by
  have h₁ : (host ++ ':' :: (port ++ '/' :: path)).idxOf? ':' = some host.length :=
    idxOf?_append_cons hc _
  have h₂ : (host ++ ':' :: (port ++ '/' :: path)).idxOf? '/' =
      some (host.length + (port.length + 1)) := by
    have hslash := idxOf?_append_cons hp path
    rw [idxOf?_append_of_notMem hs, List.idxOf?_cons, hslash]
    simp
  have hlt : host.length < host.length + (port.length + 1) := by omega
  have hn : host.length + (port.length + 1) - host.length - 1 = port.length := by omega
  simp only [splitHost, h₁, h₂, if_pos hlt, List.take_left, drop_separator]
  rw [hn, List.take_left]

/-- A colon that no slash stands before ends the host. -/
theorem splitHost_fst (back : List Char) : (splitHost (host ++ ':' :: back)).1 = host := by
  by_cases hp : '/' ∈ back
  · obtain ⟨port, path, rfl, hport⟩ := List.eq_append_cons_of_mem hp
    rw [splitHost_port_path hc hs hport]
  · rw [splitHost_port hc hs hp]

end Split

/-! ## The URL as a whole -/

/-- A URL is parsed by the split of what stands behind its scheme. -/
theorem parseUrl_text (u : ProxyUrl) (p : HttpProxy) {host rest : List Char} {port : String}
    (h : splitHost u.authority = (host, rest))
    (hport : port = if rest.isEmpty then ProxyUrl.schemePort u.useSsl else String.ofList rest) :
    p.parseUrl u.text =
      some { p with
        host := String.ofList host
        port := port
        useSsl := u.useSsl
        hostHeader := if port = "80" ∨ port = "443" then String.ofList host
          else String.ofList host ++ ":" ++ port } := by
  subst hport
  cases hu : u.useSsl with
  | true =>
    have htext : u.text.toList = "https://".toList ++ u.authority := by
      simp [ProxyUrl.text, ProxyUrl.scheme, hu]
    simp only [parseUrl, htext]
    simp [List.isPrefixOf, h, ProxyUrl.schemePort]
  | false =>
    have htext : u.text.toList = "http://".toList ++ u.authority := by
      simp [ProxyUrl.text, ProxyUrl.scheme, hu]
    simp only [parseUrl, htext]
    simp [List.isPrefixOf, h, ProxyUrl.schemePort]

/-- The digits of the port, none where the URL names no port. -/
def portDigits (u : ProxyUrl) : List Char :=
  match u.port with
  | some port => port.digits
  | none => []

theorem portOrDefault_eq (u : ProxyUrl) :
    u.portOrDefault = if (portDigits u).isEmpty then ProxyUrl.schemePort u.useSsl
      else String.ofList (portDigits u) := by
  unfold ProxyUrl.portOrDefault portDigits
  cases u.port with
  | none => rfl
  | some port => simp [port.nonempty]

theorem splitHost_name {u : ProxyUrl} (h : u.host.isName = true) :
    splitHost u.authority = (u.host.text, portDigits u) := by
  obtain ⟨useSsl, host, port, path⟩ := u
  cases host with
  | literal address colon noSlash => cases h
  | name text nonempty noColon noSlash =>
    cases port with
    | none =>
      cases path with
      | none =>
        simp only [ProxyUrl.authority, ProxyUrl.portText, ProxyUrl.pathText, UrlHost.text,
          portDigits, List.append_nil]
        exact splitHost_host noColon noSlash
      | some path => exact splitHost_path noColon noSlash path
    | some port =>
      have hport : '/' ∉ port.digits := fun hmem => absurd (port.decimal _ hmem) (by decide)
      cases path with
      | none =>
        simp only [ProxyUrl.authority, ProxyUrl.portText, ProxyUrl.pathText, UrlHost.text,
          portDigits, List.append_nil]
        exact splitHost_port noColon noSlash hport
      | some path => exact splitHost_port_path noColon noSlash hport path

/-- The brackets of a literal do not keep it together. -/
theorem splitHost_literal {u : ProxyUrl} (h : u.host.isName = false) :
    (splitHost u.authority).1 ≠ u.host.text := by
  obtain ⟨useSsl, host, port, path⟩ := u
  cases host with
  | name text nonempty noColon noSlash => cases h
  | literal address colon noSlash =>
    obtain ⟨front, behind, rfl, hfront⟩ := List.eq_append_cons_of_mem colon
    have hc : ':' ∉ '[' :: front := by simp [hfront]
    have hs : '/' ∉ '[' :: front := by
      simp only [List.mem_append, not_or] at noSlash
      simp [noSlash.1]
    have hsplit := splitHost_fst hc hs
    intro heq
    simp only [ProxyUrl.authority, UrlHost.text, List.append_assoc, List.cons_append] at heq hsplit
    rw [hsplit] at heq
    simp at heq

theorem ne_append_port (host port : String) : host ≠ host ++ ":" ++ port := by
  intro h
  have hlen := congrArg String.length h
  simp only [String.length_append] at hlen
  have hcolon : ":".length = 1 := rfl
  omega

/-- The header leaves out the default port of either scheme. -/
theorem hostHeader_iff (u : ProxyUrl) :
    (if u.portOrDefault = "80" ∨ u.portOrDefault = "443" then String.ofList u.host.text
      else String.ofList u.host.text ++ ":" ++ u.portOrDefault) = u.hostHeader ↔
      u.portOrDefault ≠ ProxyUrl.schemePort (!u.useSsl) := by
  unfold ProxyUrl.hostHeader
  generalize u.portOrDefault = port
  have hne := ne_append_port (String.ofList u.host.text) port
  cases u.useSsl with
  | true =>
    simp only [ProxyUrl.schemePort, Bool.not_true, if_true, Bool.false_eq_true, if_false]
    by_cases h₁ : port = "80"
    · subst h₁
      simp [hne]
    · by_cases h₂ : port = "443" <;> simp [h₁, h₂]
  | false =>
    simp only [ProxyUrl.schemePort, Bool.not_false, if_true, Bool.false_eq_true, if_false]
    by_cases h₁ : port = "443"
    · subst h₁
      simp [hne]
    · by_cases h₂ : port = "80" <;> simp [h₁, h₂]

/-- A URL whose host is a name is parsed as it describes the server unless it names the
default port of the other scheme, and one whose host is a literal never is. Any other
text is refused. -/
theorem parseUrl_described (p : HttpProxy) :
    (∀ u : ProxyUrl, p.parseUrl u.text = some (u.described p) ↔
      u.host.isName = true ∧ u.portOrDefault ≠ ProxyUrl.schemePort (!u.useSsl)) ∧
    ∀ url : String, p.parseUrl url = none ↔
      "https://".toList.isPrefixOf url.toList = false ∧
      "http://".toList.isPrefixOf url.toList = false := by
  constructor
  · intro u
    cases h : u.host.isName with
    | true =>
      rw [parseUrl_text u p (splitHost_name h) (portOrDefault_eq u), ← hostHeader_iff]
      simp [ProxyUrl.described]
    | false =>
      have hne : String.ofList (splitHost u.authority).1 ≠ String.ofList u.host.text := by
        intro heq
        exact splitHost_literal h (by simpa using congrArg String.toList heq)
      rw [parseUrl_text u p rfl rfl]
      constructor
      · intro heq
        exact absurd (congrArg HttpProxy.host (Option.some.inj heq)) hne
      · rintro ⟨hname, _⟩
        cases hname
  · intro url
    unfold parseUrl
    cases "https://".toList.isPrefixOf url.toList with
    | true => simp
    | false => cases "http://".toList.isPrefixOf url.toList <;> simp

/-- `http://[::1]:8080` is cut at the first colon of its host, and `http://h:443` loses
the port in its header. -/
theorem parseUrl_undescribed :
    let p : HttpProxy := { uiRemoteUrl := "" }
    let literal : ProxyUrl :=
      ⟨false, .literal "::1".toList (by decide) (by decide),
        some ⟨"8080".toList, by decide, List.all_eq_true.mp (by decide)⟩, none⟩
    let crossed : ProxyUrl :=
      ⟨false, .name "h".toList (by decide) (by decide) (by decide),
        some ⟨"443".toList, by decide, List.all_eq_true.mp (by decide)⟩, none⟩
    literal.text = "http://[::1]:8080" ∧ p.parseUrl literal.text ≠ some (literal.described p) ∧
      crossed.text = "http://h:443" ∧ p.parseUrl crossed.text ≠ some (crossed.described p) := by
  decide

end HttpProxy

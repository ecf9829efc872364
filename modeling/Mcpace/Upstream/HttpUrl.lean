import Mcpace.Library.Checks
import Mcpace.Sources.ServerEntry

/-!
Owns the URL of an upstream server as the HTTP client reads it, `parse_http_url` of
`src/upstream/http_runtime.rs`, and which of the URLs that `server add` writes it accepts.

Does not own: the requests that are sent there.
-/

namespace Mcpace.Upstream

open Library Sources List Text Checks

def isControlOrWhitespace (char : Char) : Bool := isControl char || isWhitespace char

def parseRequiredHttpPort (port authority : String) : Except String Nat :=
  match (parseUnsigned 16 port).filter (0 < ·) with
  | some value => .ok value
  | none => .error ("invalid HTTP upstream port in '" ++ authority ++ "'")

def parseOptionalHttpPort (suffix authority : String) (defaultPort : Nat) : Except String Nat :=
  if suffix = "" then .ok defaultPort
  else
    match stripPrefix ":" suffix with
    | none => .error ("invalid HTTP upstream authority '" ++ authority ++ "'")
    | some port => parseRequiredHttpPort port authority

def isCleanHost (host : String) : Bool :=
  trim host ≠ "" && !host.toList.any isControlOrWhitespace

/-- The host, the port and the `Host` header. -/
def parseHttpAuthority (authority : String) (defaultPort : Nat) :
    Except String (String × Nat × String) := do
  require (authority ≠ "" ∧ '/' ∉ authority.toList ∧ '@' ∉ authority.toList ∧
      authority.toList.any isControlOrWhitespace = false)
    ("invalid HTTP upstream authority '" ++ authority ++ "'")
  match stripPrefix "[" authority with
  | some bracketed =>
    match splitOnce ']' bracketed with
    | none => throw ("invalid IPv6 HTTP upstream authority '" ++ authority ++ "'")
    | some (host, suffix) =>
      require (isCleanHost host) ("invalid IPv6 HTTP upstream host '" ++ authority ++ "'")
      let port ← parseOptionalHttpPort suffix authority defaultPort
      let header := "[" ++ host ++ "]"
      return (host, port, if suffix = "" then header else header ++ ":" ++ toString port)
  | none =>
    require (authority.toList.count ':' ≤ 1)
      ("IPv6 HTTP upstream authorities must be bracketed: '" ++ authority ++ "'")
    let (host, port, header) ←
      match splitOnce ':' authority with
      | some (host, port) => do
        require (host ≠ "") ("invalid HTTP upstream authority '" ++ authority ++ "'")
        let port ← parseRequiredHttpPort port authority
        pure (host, port, host ++ ":" ++ toString port)
      | none => pure (authority, defaultPort, authority)
    require (isCleanHost host) ("HTTP upstream URL has an invalid host: " ++ authority)
    return (host, port, header)

def splitHttpAuthorityAndPath (rest : List Char) : Except String (String × String) :=
  let authority := rest.takeWhile (fun char => char ≠ '/' && char ≠ '?')
  let suffix := rest.drop authority.length
  let path := if suffix.head? = some '/' then suffix else '/' :: suffix
  if authority = [] then .error "HTTP upstream URL has an empty authority"
  else if path.any isControl then .error "HTTP upstream URL path cannot contain control characters"
  else .ok (String.ofList authority, String.ofList path)

def plainHttpUpstreamHostIsLoopback (isLoopbackAddress : String → Bool) (host : String) : Bool :=
  let normalized := trimMatches (fun char => char = '[' || char = ']') (trim host)
  toAsciiLowercase normalized = "localhost" || isLoopbackAddress normalized

structure ParsedHttpUrl where
  url : String
  secure : Bool
  host : String
  port : Nat
  path : String
  hostHeader : String

/-- What follows the scheme of `parse_http_url`. -/
def parseHttpTarget (isLoopbackAddress : String → Bool) (url : String) (secure : Bool)
    (rest : List Char) (defaultPort : Nat) : Except String ParsedHttpUrl := do
  let (authority, path) ← splitHttpAuthorityAndPath rest
  let (host, port, hostHeader) ← parseHttpAuthority authority defaultPort
  require (secure ∨ plainHttpUpstreamHostIsLoopback isLoopbackAddress host)
    ("direct plain-HTTP MCP upstreams are limited to loopback hosts; '" ++ host ++
      "' must use HTTPS or a local gateway")
  return { url, secure, host, port, path, hostHeader }

def parseHttpUrl (isLoopbackAddress : String → Bool) (url : String) :
    Except String ParsedHttpUrl := do
  require (url ≠ "" ∧ url.toList.any isControlOrWhitespace = false)
    "HTTP upstream URL cannot be empty or contain whitespace/control characters"
  require ('#' ∉ url.toList ∧ '\\' ∉ url.toList)
    "HTTP upstream URL cannot contain fragments or backslashes"
  let normalizedUrl := toAsciiLowercase url
  if startsWith normalizedUrl "https://" then
    parseHttpTarget isLoopbackAddress url true (url.toList.drop 8) 443
  else if startsWith normalizedUrl "http://" then
    parseHttpTarget isLoopbackAddress url false (url.toList.drop 7) 80
  else throw ("HTTP upstream URL must start with http:// or https://: " ++ url)

/-! ### The target that was validated -/

/-- The authority that `validate_remote_mcp_url` checks. -/
def remoteMcpAuthority (rest : List Char) : String :=
  String.ofList (rest.takeWhile (fun char => char ≠ '/' && char ≠ '?'))

/-- The host it checks, and the port it checks or the default. -/
def remoteMcpEndpoint (authority : String) (defaultPort : Nat) : String × Nat :=
  match stripPrefix "[" authority with
  | some bracketed => (String.ofList (bracketed.toList.takeWhile (· ≠ ']')),
      ((splitOnce ']' bracketed).bind (fun parts =>
        (stripPrefix ":" parts.2).bind (parseUnsigned 16))).getD defaultPort)
  | none => (String.ofList (authority.toList.takeWhile (· ≠ ':')),
      ((splitOnce ':' authority).bind (fun parts => parseUnsigned 16 parts.2)).getD defaultPort)

/-- Whether the URL asks for TLS, its host and its port. -/
def remoteMcpTarget (url : String) : Bool × String × Nat :=
  if startsWith (toAsciiLowercase url) "http://" then
    (false, remoteMcpEndpoint (remoteMcpAuthority (url.toList.drop 7)) 80)
  else (true, remoteMcpEndpoint (remoteMcpAuthority (url.toList.drop 8)) 443)

/-- No character is a control character or whitespace, ASCII or not. -/
def Clean (chars : List Char) : Prop := ∀ char ∈ chars, ¬ isControlOrWhitespace char

variable {isLoopbackAddress : String → Bool} {authority host port suffix : String}
  {rest : List Char} {defaultPort : Nat}

theorem Clean.mono {part : List Char} (clean : Clean rest) (within : part ⊆ rest) : Clean part :=
  fun char member => clean char (within member)

theorem parseRequiredHttpPort_of_valid (valid : validateRemoteMcpPort port = .ok ()) :
    parseRequiredHttpPort port authority = .ok ((parseUnsigned 16 port).getD defaultPort) := by
  rw [validateRemoteMcpPort] at valid
  split_ifs at valid with isPort
  obtain ⟨value, found⟩ := Option.isSome_iff_exists.mp isPort
  rw [parseRequiredHttpPort, found, (Option.filter_eq_some_iff.mp found).1]
  rfl

theorem parseOptionalHttpPort_of_valid (valid : validateRemoteMcpPortSuffix suffix = .ok ()) :
    parseOptionalHttpPort suffix authority defaultPort =
      .ok (((stripPrefix ":" suffix).bind (parseUnsigned 16)).getD defaultPort) := by
  by_cases empty : suffix = ""
  · rw [empty]
    rfl
  rw [validateRemoteMcpPortSuffix, if_neg empty] at valid
  rw [parseOptionalHttpPort, if_neg empty]
  cases found : stripPrefix ":" suffix with
  | none =>
    rw [found] at valid
    cases valid
  | some port =>
    rw [found] at valid
    exact parseRequiredHttpPort_of_valid valid

theorem isCleanHost_of_valid (clean : Clean host.toList)
    (valid : validateRemoteMcpHost host = .ok ()) : isCleanHost host = true := by
  rw [validateRemoteMcpHost] at valid
  split_ifs at valid with bad
  simp [isCleanHost, mt Or.inl bad, any_eq_false.mpr clean]

theorem splitOnce_eq_some {separator : Char} {text : String} {parts : String × String}
    (split : splitOnce separator text = some parts) :
    String.ofList (text.toList.takeWhile (· ≠ separator)) = parts.1 ∧
      parts.1.toList ⊆ text.toList := by
  rw [splitOnce] at split
  split_ifs at split
  cases split
  exact ⟨rfl, by simpa using (takeWhile_sublist _).subset⟩

/-- Both sides ask whether the same host is a loopback host. -/
theorem remoteMcpAuthorityIsLoopback_eq : remoteMcpAuthorityIsLoopback isLoopbackAddress authority =
    plainHttpUpstreamHostIsLoopback isLoopbackAddress (remoteMcpEndpoint authority defaultPort).1 := by
  rw [remoteMcpAuthorityIsLoopback, plainHttpUpstreamHostIsLoopback, remoteMcpEndpoint]
  cases stripPrefix "[" authority with
  | some bracketed => rfl
  | none => rfl

theorem parseHttpAuthority_of_valid (clean : Clean authority.toList)
    (valid : validateRemoteMcpAuthority authority = .ok ()) :
    ∃ header, parseHttpAuthority authority defaultPort =
      .ok ((remoteMcpEndpoint authority defaultPort).1,
        (remoteMcpEndpoint authority defaultPort).2, header) := by
  rw [validateRemoteMcpAuthority, throwIf_eq_ok] at valid
  obtain ⟨bad, valid⟩ := valid
  simp only [not_or] at bad
  simp only [parseHttpAuthority, require_bind_eq_ok, remoteMcpEndpoint, bad.1, bad.2.1, bad.2.2.1,
    any_eq_false.mpr clean, ne_eq, not_false_eq_true, and_self, true_and]
  cases bracket : stripPrefix "[" authority with
  | some bracketed =>
    rw [bracket] at valid
    dsimp only at valid ⊢
    cases split : splitOnce ']' bracketed with
    | none =>
      rw [split] at valid
      cases valid
    | some parts =>
      rw [split] at valid
      dsimp only at valid ⊢
      rw [throwIf_eq_ok] at valid
      have within : bracketed.toList ⊆ authority.toList := by
        rw [stripPrefix] at bracket
        split_ifs at bracket
        cases bracket
        simpa using (tail_sublist _).subset
      obtain ⟨isHost, hostWithin⟩ := splitOnce_eq_some split
      have cleanHost := isCleanHost_of_valid ((clean.mono within).mono hostWithin) (if_neg valid.1)
      rw [isHost, parseOptionalHttpPort_of_valid valid.2]
      simp [require_bind_eq_ok, cleanHost]
  | none =>
    rw [bracket] at valid
    dsimp only at valid ⊢
    rw [throwIf_eq_ok] at valid
    obtain ⟨many, valid⟩ := valid
    cases split : splitOnce ':' authority with
    | some parts =>
      rw [split] at valid
      dsimp only at valid ⊢
      rw [throwIf_eq_ok, bind_eq_ok] at valid
      obtain ⟨filled, _, validHost, validPort⟩ := valid
      obtain ⟨isHost, hostWithin⟩ := splitOnce_eq_some split
      have cleanHost := isCleanHost_of_valid (clean.mono hostWithin) validHost
      rw [isHost, @parseRequiredHttpPort_of_valid _ _ defaultPort validPort]
      simp [bind_eq_ok, require, Nat.le_of_not_lt many, filled, cleanHost]
    | none =>
      have whole : authority.toList.takeWhile (· ≠ ':') = authority.toList := by
        rw [splitOnce] at split
        split_ifs at split with absent
        rw [takeWhile_eq_self_iff]
        exact fun char member => decide_eq_true (fun same => absent (same ▸ member))
      rw [split] at valid
      rw [whole, String.ofList_toList]
      simp [bind_eq_ok, require, Nat.le_of_not_lt many, isCleanHost_of_valid clean valid]

theorem splitHttpAuthorityAndPath_of_clean (clean : Clean rest)
    (filled : remoteMcpAuthority rest ≠ "") :
    ∃ path, splitHttpAuthorityAndPath rest = .ok (remoteMcpAuthority rest, path) := by
  have nonempty : rest.takeWhile (fun char => char ≠ '/' && char ≠ '?') ≠ [] :=
    fun empty => filled (congrArg String.ofList empty)
  have noControl : ∀ char ∈ '/' :: rest, ¬ isControl char := by
    intro char member control
    rcases mem_cons.mp member with rfl | inside
    · cases control
    · exact clean char inside (by rw [isControlOrWhitespace, control, Bool.true_or])
  have within (count : Nat) : rest.drop count ⊆ rest := (drop_sublist _ _).subset
  rw [splitHttpAuthorityAndPath, if_neg nonempty, if_neg]
  · exact ⟨_, rfl⟩
  rw [Bool.not_eq_true, any_eq_false]
  split_ifs
  · exact fun char member => noControl char (mem_cons_of_mem _ (within _ member))
  · exact fun char member => noControl char (cons_subset_cons _ (within _) member)

theorem parseHttpTarget_of_valid {secure : Bool} {url : String} (clean : Clean rest)
    (valid : validateRemoteMcpAuthority (remoteMcpAuthority rest) = .ok ())
    (loopback : secure ∨ remoteMcpAuthorityIsLoopback isLoopbackAddress (remoteMcpAuthority rest)) :
    ∃ parsed, parseHttpTarget isLoopbackAddress url secure rest defaultPort = .ok parsed ∧
      (parsed.secure, parsed.host, parsed.port) =
        (secure, remoteMcpEndpoint (remoteMcpAuthority rest) defaultPort) := by
  have filled : remoteMcpAuthority rest ≠ "" := by
    intro empty
    rw [empty] at valid
    cases valid
  obtain ⟨path, split⟩ := splitHttpAuthorityAndPath_of_clean clean filled
  have within : (remoteMcpAuthority rest).toList ⊆ rest := by
    simpa [remoteMcpAuthority] using (takeWhile_sublist _).subset
  obtain ⟨header, parsed⟩ := @parseHttpAuthority_of_valid _ defaultPort (clean.mono within) valid
  rw [@remoteMcpAuthorityIsLoopback_eq _ _ defaultPort] at loopback
  exact ⟨_, bind_eq_ok.mpr ⟨_, split, bind_eq_ok.mpr ⟨_, parsed,
    require_bind_eq_ok.mpr ⟨loopback, rfl⟩⟩⟩, rfl⟩

/-- The schemes exclude each other, so it does not matter which is tried first. -/
theorem not_https_of_http {text : String} (plain : startsWith text "http://") :
    ¬ startsWith text "https://" := by
  intro secure
  rw [startsWith, isPrefixOf_iff_prefix] at plain secure
  exact absurd (prefix_of_prefix_length_le plain secure (by decide)) (by decide)

/-- The client accepts what was validated, the URL without its surrounding blanks, and connects to
the same target, exactly when the URL has no control character and no whitespace. -/
theorem urlValidators_agree_iff (isLoopbackAddress : String → Bool) (value : String)
    (valid : validateRemoteMcpUrl isLoopbackAddress value = .ok ()) :
    (∃ parsed, parseHttpUrl isLoopbackAddress (trim value) = .ok parsed ∧
        (parsed.secure, parsed.host, parsed.port) = remoteMcpTarget (trim value)) ↔
      Clean (trim value).toList := by
  constructor
  · intro ⟨_, accepted, _⟩
    rw [parseHttpUrl, require_bind_eq_ok] at accepted
    exact any_eq_false.mp accepted.1.2
  intro clean
  have cleanRest (count : Nat) : Clean ((trim value).toList.drop count) :=
    clean.mono (drop_sublist _ _).subset
  rw [validateRemoteMcpUrl] at valid
  dsimp only at valid
  rw [throwIf_eq_ok] at valid
  obtain ⟨filled, valid⟩ := valid
  rw [throwIf_eq_ok] at valid
  obtain ⟨_, valid⟩ := valid
  rw [throwIf_eq_ok, not_or] at valid
  obtain ⟨special, valid⟩ := valid
  simp only [parseHttpUrl, require_bind_eq_ok, remoteMcpTarget, any_eq_false.mpr clean, ne_eq,
    filled, special, not_false_eq_true, and_self, true_and]
  by_cases plain : startsWith (toAsciiLowercase (trim value)) "http://"
  · rw [if_pos plain, pure_bind, bind_eq_ok] at valid
    obtain ⟨_, validAuthority, loopback⟩ := valid
    rw [if_neg (not_https_of_http plain), if_pos plain, if_pos plain]
    refine parseHttpTarget_of_valid (cleanRest 7) validAuthority (Or.inr ?_)
    split_ifs at loopback with remote
    exact not_not.mp (fun other => remote ⟨rfl, other⟩)
  · rw [if_neg plain] at valid
    split_ifs at valid with secure
    · rw [pure_bind, bind_eq_ok] at valid
      dsimp only at valid
      obtain ⟨_, validAuthority, _⟩ := valid
      rw [if_pos secure, if_neg plain]
      exact parseHttpTarget_of_valid (cleanRest 8) validAuthority (Or.inl rfl)
    · cases valid

theorem urlValidators_agree_https : ∃ parsed,
    parseHttpUrl (fun _ => false) "https://example.com/mcp" = .ok parsed ∧
      (parsed.secure, parsed.host, parsed.port) = (true, "example.com", 443) :=
  (urlValidators_agree_iff (fun _ => false) "https://example.com/mcp" (by decide +kernel)).mpr
    (forall_mem_of_all (by decide +kernel))

/-- A no-break space is written and then refused. -/
theorem urlValidators_disagree :
    validateRemoteMcpUrl (fun _ => false) "https://example.com/a\u00a0b" = .ok () ∧
      (parseHttpUrl (fun _ => false) "https://example.com/a\u00a0b").toOption.isNone := by
  decide +kernel

end Mcpace.Upstream

import SubConverter.Handler.Addresses
import SubConverter.Lib.Rewriting

set_option autoImplicit false

namespace SubConverter.Handler.GithubProxy

open Rewriting

section Urls

structure ParsedUrl where
  scheme : Text := []
  authority : Text := []
  host : Text := []
  path : Text := []
  pathStart : Option Nat := none
  valid : Bool := false
deriving DecidableEq, Repr

-- Every character stands for one byte.
def lowerAscii (value : Text) : Text := value.map Char.toLower

def startsPath (c : Char) : Bool := c ∈ ['/', '?', '#']

def hostOf (authority : Text) : Text :=
  lowerAscii ((if '@' ∈ authority then authority.rtakeWhile fun c => c ≠ '@' else authority).takeWhile fun c => c ≠ ':')

def parseUrl (value : Text) : ParsedUrl :=
  match cutAt (chars "://") value with
  | none => {}
  | some (scheme, behind) =>
    let scheme := lowerAscii scheme
    if scheme ≠ chars "http" ∧ scheme ≠ chars "https" then { scheme := scheme }
    else
      let authority := behind.takeWhile fun c => !startsPath c
      if authority = [] then { scheme := scheme }
      else
        let path := behind.dropWhile fun c => !startsPath c
        { scheme := scheme, authority := authority, host := hostOf authority, path := path,
          pathStart := some (value.length - path.length), valid := hostOf authority ≠ [] }

def isGitHubHost (host : Text) : Bool :=
  host ∈ ["github.com", "raw.githubusercontent.com", "gist.githubusercontent.com"].map chars

def isJsdelivrHost (host : Text) : Bool :=
  host ∈ ["cdn.jsdelivr.net", "fastly.jsdelivr.net", "testingcf.jsdelivr.net", "gcore.jsdelivr.net"].map chars

def isGitHubUrl (value : Text) : Bool := (parseUrl value).valid && isGitHubHost (parseUrl value).host

def urlHole : Text := chars "\x7burl\x7d"

def encodedUrlHole : Text := chars "\x7bencodedUrl\x7d"

def contains (text part : Text) : Bool := (cutAt part text).isSome

def normalizeProxyPrefix (proxy : Text) : Text :=
  let proxy := trimWhitespace proxy
  if proxy = [] ∨ contains proxy urlHole ∨ contains proxy encodedUrlHole then proxy
  else if endsWith proxy ['/'] then proxy
  else proxy ++ ['/']

end Urls

section Proxies

def replaceAt (hole filling : Text) : Rule Char := fun _ text =>
  if hole.isPrefixOf text then some (filling, text.drop hole.length) else none

def replaceAll (value hole filling : Text) : Text := rewrite (replaceAt hole filling) value

def toHex (x : Nat) : Char := Char.ofNat (if x > 9 then x + 55 else x + 48)

def urlEncode (text : Text) : Text :=
  text.flatMap fun c =>
    if c.isAlphanum ∨ c ∈ ['-', '_', '.', '~'] then [c] else ['%', toHex (c.toNat / 16), toHex (c.toNat % 16)]

def jsdelivrGhPath (value : Text) : Text :=
  let parsed := parseUrl value
  if !parsed.valid then []
  else
    let segments := (split parsed.path '/').filter fun item => item ≠ []
    match segments with
    | owner :: repo :: ref :: file :: rest =>
      if parsed.host = chars "raw.githubusercontent.com" then
        chars "gh/" ++ owner ++ ['/'] ++ repo ++ ['@'] ++ ref ++ ['/'] ++ ['/'].intercalate (file :: rest)
      else
        match rest with
        | [] => []
        | first :: more =>
          if parsed.host = chars "github.com" ∧ (ref = chars "raw" ∨ ref = chars "blob") then
            chars "gh/" ++ owner ++ ['/'] ++ repo ++ ['@'] ++ file ++ ['/'] ++ ['/'].intercalate (first :: more)
          else []
    | _ => []

def rawMarkers : List Text :=
  ["https://raw.githubusercontent.com/", "https://github.com/", "https://gist.githubusercontent.com/"].map chars

def encodedMarkers : List Text :=
  ["https%3a%2f%2fraw.githubusercontent.com%2f", "https%3a%2f%2fgithub.com%2f", "https%3a%2f%2fgist.githubusercontent.com%2f"].map
    chars

-- The first marker of the list that occurs counts, wherever it does.
def markerPlace (markers : List Text) (rest : Text) : Option Nat :=
  markers.findSome? fun marker => (cutAt marker (lowerAscii rest)).map fun parts => parts.1.length

def embeddedGitHubUrlPrefix (configUrl : Text) (parsed : ParsedUrl) : Text :=
  match parsed.pathStart with
  | none => []
  | some pathStart =>
    if pathStart ≥ configUrl.length then []
    else
      let contentStart := pathStart + 1
      let rest := configUrl.drop contentStart
      match markerPlace rawMarkers rest with
      | some pos => configUrl.take (contentStart + pos)
      | none =>
        match markerPlace encodedMarkers rest with
        | some pos => configUrl.take (contentStart + pos) ++ encodedUrlHole
        | none => []

def inferGitHubProxyPrefixFromConfigUrl (configUrl : Text) : Text :=
  let parsed := parseUrl configUrl
  if !parsed.valid ∨ isGitHubHost parsed.host then []
  else if isJsdelivrHost parsed.host ∧ startsWith parsed.path (chars "/gh/") then
    parsed.scheme ++ chars "://" ++ parsed.authority ++ ['/']
  else normalizeProxyPrefix (embeddedGitHubUrlPrefix configUrl parsed)

def applyGitHubProxyToUrl (url proxy : Text) : Text :=
  let proxy := normalizeProxyPrefix proxy
  if proxy = [] ∨ !isGitHubUrl url then url
  else if contains proxy encodedUrlHole then replaceAll proxy encodedUrlHole (urlEncode url)
  else if contains proxy urlHole then replaceAll proxy urlHole url
  else if (parseUrl proxy).valid ∧ isJsdelivrHost (parseUrl proxy).host then
    if jsdelivrGhPath url = [] then url else proxy ++ jsdelivrGhPath url
  else proxy ++ url

example : applyGitHubProxyToUrl (chars "https://raw.githubusercontent.com/A/B/main/a/b.list")
    (inferGitHubProxyPrefixFromConfigUrl (chars "https://testingcf.jsdelivr.net/gh/O/R@refs/heads/main/c.ini")) =
    chars "https://testingcf.jsdelivr.net/gh/A/B@main/a/b.list" := by
  decide

end Proxies

end SubConverter.Handler.GithubProxy

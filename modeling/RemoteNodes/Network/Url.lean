import RemoteNodes.Decimal.Numeral
import RemoteNodes.Text.Base64
import RemoteNodes.Text.Punycode
import RemoteNodes.Text.Quoted
/-!
Addresses of servers, in the form in which requests go out: scheme and host in small letters, no
port that the scheme implies, no dots that lead back in the path, and no characters outside the
printable ASCII ones.

* `Url.read?`: the address that a text writes.
* `Url.text`: the written form of an address.
* `Url.sent`: the address that a request is sent to.
* `Url.credentials?`: what names the sender to the server.
-/

namespace RemoteNodes

/-- An address. Its parts are as they are written, apart from the marks between them. -/
structure Url where
  scheme : String := ""
  userInfo : String := ""
  host : String := ""
  port? : Option Int := none
  path : String := ""
  query? : Option String := none
  fragment? : Option String := none
  deriving Repr, DecidableEq, Inhabited

namespace Url

/-! ### Characters -/

/-- The printable characters of ASCII. -/
def isPrintable (c : Char) : Bool := 32 ≤ c.toNat && c.toNat < 127

/-- The printable characters without some of them. -/
def isPrintableBut (others : String) (c : Char) : Bool :=
  isPrintable c && !others.toList.contains c

/-- The characters that can stand in a query. -/
def isInQuery : Char → Bool := isPrintableBut " \"#<>"

/-- The characters that can stand in a path. -/
def isInPath (c : Char) : Bool := isInQuery c && !"?`\x7b\x7d".toList.contains c

/-- The characters that can stand in a fragment. -/
def isInFragment : Char → Bool := isPrintableBut " \"<>`"

/-- The characters that can stand before a host. -/
def isInUserInfo (c : Char) : Bool := isInPath c && !"/;=@[\\]^|".toList.contains c

/-- The characters that can stand in a host. -/
def isInHost (c : Char) : Bool :=
  c.isAlphanum || "-._~!$&'()*+,;=\"`\x7b\x7d%|\\".toList.contains c

/-- A character by its bytes, each as two hexadecimal digits after a percent sign. -/
def escape (c : Char) : List Char :=
  (String.utf8EncodeChar c).flatMap fun b => '%' :: (Text.hexDigits 2 b.toNat).map Char.toUpper

/-- A text whose characters outside of a set are escaped. -/
def escapeAllBut (isKept : Char → Bool) (cs : List Char) : String :=
  String.ofList (cs.flatMap fun c => if isKept c then [c] else escape c)

/-- The bytes of a text in which two hexadecimal digits after a percent sign stand for a byte. -/
def bytesOf : List Char → List UInt8
  | [] => []
  | '%' :: a :: b :: rest =>
    match Text.hexValue? a, Text.hexValue? b with
    | some m, some n => UInt8.ofNat (16 * m + n) :: bytesOf rest
    | _, _ => 37 :: bytesOf (a :: b :: rest)
  | c :: rest => String.utf8EncodeChar c ++ bytesOf rest

/-- Whether a scheme can go on with a character. -/
def isSchemePart (c : Char) : Bool := c.isAlphanum || c = '+' || c = '.' || c = '-'

/-! ### Parts -/

/-- The scheme at the front, up to a colon, and the rest. -/
def takeScheme (cs : List Char) : List Char × List Char :=
  match cs with
  | ':' :: rest => ([], rest)
  | c :: _ =>
    match cs.span isSchemePart with
    | (scheme, ':' :: rest) => if c.isAlpha then (scheme, rest) else ([], cs)
    | _ => ([], cs)
  | [] => ([], [])

/-- The server at the front, after two slashes, and the rest. -/
def takeAuthority : List Char → List Char × List Char
  | '/' :: '/' :: rest => rest.span fun c => c != '/' && c != '?' && c != '#'
  | cs => ([], cs)

/-- What follows a mark up to one of others, and the rest; nothing if the mark does not come
next. -/
def takeAfter (mark : Char) (ends : List Char) (cs : List Char) :
    Option (List Char) × List Char :=
  match cs with
  | [] => (none, [])
  | c :: rest =>
    if c = mark then
      let (part, rest) := rest.span fun c => !ends.contains c
      (some part, rest)
    else (none, c :: rest)

/-- What comes before the last of a mark, and what follows it. -/
def splitLast (mark : Char) (cs : List Char) : List Char × List Char :=
  let (after, before) := cs.reverse.span (· != mark)
  (before.tail.reverse, after.reverse)

/-- The host of a server, and its port as it is written. A host in brackets may hold colons. -/
def splitHost (cs : List Char) : List Char × List Char :=
  let dropColon : List Char → List Char := fun rest =>
    match rest with
    | ':' :: port => port
    | port => port
  match cs with
  | '[' :: rest =>
    if rest.contains ']' then
      let (inside, after) := splitLast ']' rest
      ('[' :: inside ++ [']'], dropColon after)
    else
      let (host, after) := cs.span (· != ':')
      (host, dropColon after)
  | _ =>
    let (host, after) := cs.span (· != ':')
    (host, dropColon after)

/-- The letters of scripts whose capital letters stand at a fixed distance from the small ones. -/
def smallLetter (c : Char) : Char :=
  let n := c.toNat
  if c.isUpper then c.toLower
  else if (0xC0 ≤ n && n ≤ 0xDE && n != 0xD7) || (0x391 ≤ n && n ≤ 0x3A9) ||
      (0x410 ≤ n && n ≤ 0x42F) then Char.ofNat (n + 32)
  else if 0x400 ≤ n && n ≤ 0x40F then Char.ofNat (n + 80)
  else c

/-- Whether a character separates the labels of a host name. -/
def isLabelDot (c : Char) : Bool :=
  c = '.' || c = '\u3002' || c = '\uff0e' || c = '\uff61'

/-- A label of a host name in ASCII. -/
def asciiLabel (label : List Char) : List Char :=
  if label.all (·.toNat < 128) then label else "xn--".toList ++ Text.Punycode.encode label

/-- A host as it is sent. -/
def normalHost (cs : List Char) : String :=
  if cs.head? == some '[' then String.ofList cs
  else if cs.all (·.toNat < 128) then escapeAllBut isInHost (cs.map Char.toLower)
  else String.ofList (['.'].intercalate (((cs.map smallLetter).splitOnP isLabelDot).map asciiLabel))

/-- The port that a scheme implies. -/
def usualPort? : String → Option Int
  | "ftp" => some 21
  | "http" | "ws" => some 80
  | "https" | "wss" => some 443
  | _ => none

/-- The port of a server, none if it goes without saying; nothing if it is no number. -/
def readPort? (scheme : String) (cs : List Char) : Option (Option Int) :=
  if cs.isEmpty then some none
  else do
    let port ← Numeral.readInt? (String.ofList cs)
    return if usualPort? scheme == some port then none else some port

/-- One more part of a path: two dots lead back, but not before its beginning. -/
def walkPart (path : List (List Char)) (part : List Char) : List (List Char) :=
  if part == ['.'] then path
  else if part == ['.', '.'] then if path == [[]] then path else path.dropLast
  else path ++ [part]

/-- A path without the parts that are dots. -/
def withoutDots (cs : List Char) : List Char :=
  let parts := cs.splitOn '/'
  if parts.contains ['.'] || parts.contains ['.', '.'] then
    ['/'].intercalate (parts.foldl walkPart [])
  else cs

/-! ### Addresses -/

/-- Whether a path fits what comes before it. -/
def pathFits (hasScheme hasServer : Bool) (path : List Char) : Bool :=
  match path with
  | [] => true
  | c :: rest =>
    if hasServer then c = '/' else hasScheme || !(c = '/' && rest.head? == some '/' || c = ':')

/-- The address that a text writes. -/
def read? (s : String) : Option Url := do
  let cs := s.toList
  if cs.any fun c => c.toNat < 32 || c.toNat = 127 then none
  let (scheme, cs) := takeScheme cs
  let (authority, cs) := takeAuthority cs
  let (path, cs) := cs.span fun c => c != '?' && c != '#'
  let (query?, cs) := takeAfter '?' ['#'] cs
  let (fragment?, _) := takeAfter '#' [] cs
  let (userInfo, server) := splitLast '@' authority
  let (host, port) := splitHost server
  let port? ← readPort? (String.ofList scheme) port
  let hasServer := !userInfo.isEmpty || !host.isEmpty || port?.isSome
  if !pathFits (!scheme.isEmpty) hasServer path then none
  let path := if !scheme.isEmpty || hasServer then withoutDots path else path
  return {
    scheme := String.ofList (scheme.map Char.toLower)
    userInfo := escapeAllBut isInUserInfo userInfo
    host := normalHost host
    port?
    path := escapeAllBut isInPath path
    query? := query?.map (escapeAllBut isInQuery)
    fragment? := fragment?.map (escapeAllBut isInFragment) }

/-- The server in an address. -/
def authority (u : Url) : String :=
  (if u.userInfo == "" then "" else u.userInfo ++ "@") ++ u.host ++
    ((u.port?.map fun port => ":" ++ toString port).getD "")

/-- The written form of an address. -/
def text (u : Url) : String :=
  (if u.scheme == "" then "" else u.scheme ++ ":") ++
    (if u.authority == "" then "" else "//" ++ u.authority) ++ u.path ++
    ((u.query?.map ("?" ++ ·)).getD "") ++ ((u.fragment?.map ("#" ++ ·)).getD "")

/-- Whether an address tells how to reach a server. -/
def isAbsolute (u : Url) : Bool := u.scheme != "" && u.host != ""

/-- What names the sender to the server: the name and the password in the address, if it has one of
them. -/
def credentials? (u : Url) : Option String :=
  let (name, password) := u.userInfo.toList.span (· != ':')
  let password := password.drop 1
  if name.isEmpty && password.isEmpty then none
  else
    let pair := bytesOf name ++ bytesOf [':'] ++ bytesOf password
    some ("Basic " ++ String.ofList (Text.Base64.encode pair))

/-- The address that a request is sent to: without a server it is only a path and a query. -/
def sent (u : Url) : Url :=
  if u.isAbsolute then u
  else { path := String.ofList ('/' :: u.path.toList.dropWhile (· = '/')), query? := u.query? }

end Url

end RemoteNodes

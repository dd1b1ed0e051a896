import RetroConfig.Library.Walk
import Mathlib.Data.List.DropRight

/-!
# `PageURL`: links of a page in two script engines

`PageURL.href` finds the url that a link leads to from the page with a given url. It is written once
for the JavaScript engines, on top of a class `URL` (`env/v8/page_url.js`), and once for mruby, on top
of `URI` (`env/ruby/page_url.rb`). The two are the same line by line, but not what they call:

* `split` of JavaScript keeps empty strings at the end, and makes one of the empty string; `split` of
  Ruby drops them;
* `^` is the start of the text in JavaScript, the start of a line in Ruby;
* `URL` knows the schemes of word characters only. For any other one its members stay undefined.

`href_iff` says when both return the same url. `URI.parse`, which is given as a function, has to return
the parts of the url.
-/

namespace RetroConfig.PageURL

open Segments Walk

/-- A string. -/
abbrev Text := List Char

/-! ## Both engines -/

/-- `\w`, which is ASCII in JavaScript and in the Ruby syntax of Onigmo. -/
def isWord (c : Char) : Bool := c.isAlphanum || c = '_'

/-- The match of `\w*:` at the start of a text. -/
def wordsColon : Text → Option Text
  | [] => none
  | c :: s => if c = ':' then some [':'] else if isWord c then (wordsColon s).map (c :: ·) else none

/-- The match of `\w+:` at the start of a text. -/
def wordColon : Text → Option Text
  | [] => none
  | c :: s => if isWord c then (wordsColon s).map (c :: ·) else none

def here : Text := ['.']

def up : Text := ['.', '.']

/-! ## JavaScript -/

namespace JavaScript

/-- The members of a `URL`. -/
structure URL where
  protocol : Text
  host : Text
  hostname : Text
  pathname : Text
  path : Text
  search : Text
  hash : Text
  origin : Text
  href : Text
  searchParams : Text → Option Text

/-- `str.substr(0, str.indexOf(c))` and `str.substr(str.indexOf(c))` for a `c` in the text. -/
def cutAt (c : Char) (str : Text) : Option (Text × Text) :=
  (str.idxOf? c).map fun i => (str.take i, str.drop i)

/-- One round of the loop over the parameters. -/
def addParam (query : Text → Option Text) (str : Text) : Text → Option Text :=
  match str.idxOf? '=' with
  | some idx =>
    if 0 < idx then Function.update query (str.take idx) (some (str.drop (idx + 1))) else query
  | none => query

/-- The constructor of `URL`. It is `none` where it leaves all members undefined. -/
def URL.new (url : Text) : Option URL :=
  (wordColon url).map fun protocol =>
    let str := url.drop (protocol.length + 2)
    let host := ((cutAt '/' str).map Prod.fst).getD []
    let str := str.drop host.length
    let (pathname, query) := (cutAt '?' str).getD (str, [])
    let path := if pathname = [] then ['/'] else pathname
    let (search, hash) := (cutAt '#' query).getD (query, [])
    let origin := protocol ++ ['/', '/'] ++ host
    { protocol, host, hostname := host, pathname, path, search, hash, origin
      href := origin ++ path ++ search ++ hash
      searchParams := (search.tail.splitOn '&').foldl addParam fun _ => none }

/-- The text of an undefined member. -/
def undefined : Text := ['u', 'n', 'd', 'e', 'f', 'i', 'n', 'e', 'd']

/-- `PageURL.href`. It is `none` where `split` of an undefined member is an error. -/
def href (url : Option URL) (src : Text) : Option Text :=
  if (wordColon src).isSome then some src
  else if src.head? = some '/' then some ((url.map URL.origin).getD undefined ++ src)
  else url.map fun url =>
    let bsegs := walk here up (url.pathname.splitOn '/') (src.splitOn '/')
    let path := join '/' bsegs
    let path := if path.head? ≠ some '/' then '/' :: path else path
    url.origin ++ path

end JavaScript

/-! ## Ruby -/

namespace Ruby

/-- What `URI.parse` returns, as far as `PageURL` asks for it. -/
structure Uri where
  scheme : Text
  hostname : Text
  path : Text
  deriving DecidableEq

/-- `split` drops the empty strings at the end. -/
def split (text : Text) : List Text := (text.splitOn '/').rdropWhile List.isEmpty

/-- A line of the text that is not the first one starts with `\w+:`. -/
def laterLine : Text → Bool
  | [] => false
  | c :: text => (c = '\n' && (wordColon text).isSome) || laterLine text

/-- `match(/^\w+:/)` -/
def isMatch (text : Text) : Bool := (wordColon text).isSome || laterLine text

def origin (uri : Uri) : Text := uri.scheme ++ [':', '/', '/'] ++ uri.hostname

/-- `PageURL#href` -/
def href (uri : Uri) (src : Text) : Text :=
  if isMatch src then src
  else if src.head? = some '/' then origin uri ++ src
  else
    let bsegs := walk here up (split uri.path) (split src)
    let path := join '/' bsegs
    let path := if path.head? = some '/' then path else '/' :: path
    origin uri ++ path

end Ruby

/-! ## The url of the page -/

/-- A character of a scheme. -/
def isSchemeChar (c : Char) : Bool := c.isAlphanum || c = '+' || c = '-' || c = '.'

/-- A url `scheme://host/path` with or without a query, in its parts. -/
structure Base where
  scheme : Text
  host : Text
  path : Text
  query : Option Text
  scheme_letter : ∃ c s, scheme = c :: s ∧ c.isAlpha = true
  scheme_chars : ∀ c ∈ scheme, isSchemeChar c = true
  host_chars : ∀ c ∈ host, c ≠ '/' ∧ c ≠ '?' ∧ c ≠ '#'
  path_slash : path.head? = some '/'
  path_chars : ∀ c ∈ path, c ≠ '?' ∧ c ≠ '#'
  query_chars : ∀ q ∈ query, '#' ∉ q

namespace Base

def queryText (base : Base) : Text := (base.query.map ('?' :: ·)).getD []

/-- The url. -/
def url (base : Base) : Text :=
  base.scheme ++ [':', '/', '/'] ++ base.host ++ base.path ++ base.queryText

end Base

/-! ## The parts of the url -/

section Parts

variable {w rest front str text : Text} {c : Char}

theorem wordsColon_append (h : ∀ c ∈ w, isWord c = true) :
    wordsColon (w ++ ':' :: rest) = some (w ++ [':']) := by
  induction w with
  | nil => rfl
  | cons c w ih =>
    obtain ⟨hc, hw⟩ := List.forall_mem_cons.mp h
    have hNe : c ≠ ':' := by
      rintro rfl
      cases hc
    rw [List.cons_append, wordsColon, if_neg hNe, if_pos hc, ih hw]
    rfl

theorem wordsColon_none (hNot : ∃ c ∈ w, isWord c = false) (hColon : ':' ∉ w) :
    wordsColon (w ++ rest) = none := by
  induction w with
  | nil =>
    obtain ⟨c, hc, -⟩ := hNot
    cases hc
  | cons c w ih =>
    rw [List.mem_cons, not_or] at hColon
    rw [List.cons_append, wordsColon, if_neg (Ne.symm hColon.1)]
    split
    · next hWord =>
      obtain ⟨d, hd, hNotWord⟩ := hNot
      rcases List.mem_cons.mp hd with rfl | hMem
      · rw [hWord] at hNotWord
        cases hNotWord
      · rw [ih ⟨d, hMem, hNotWord⟩ hColon.2]
        rfl
    · rfl

/-- A match is a start of the text. -/
theorem wordColon_append (h : wordColon text = some front) (str : Text) :
    wordColon (front ++ str) = some front := by
  have hWords : ∀ {text front : Text}, wordsColon text = some front →
      wordsColon (front ++ str) = some front := by
    intro text
    induction text with
    | nil => exact fun h => by cases h
    | cons c text ih =>
      intro front h
      rw [wordsColon] at h
      split at h
      · obtain rfl := Option.some.inj h
        rfl
      · next hColon =>
        split at h
        · next hWord =>
          obtain ⟨tail, hTail, rfl⟩ := Option.map_eq_some_iff.mp h
          rw [List.cons_append, wordsColon, if_neg hColon, if_pos hWord, ih hTail]
          rfl
        · cases h
  cases text with
  | nil => cases h
  | cons c text =>
    rw [wordColon] at h
    split at h
    · next hWord =>
      obtain ⟨tail, hTail, rfl⟩ := Option.map_eq_some_iff.mp h
      rw [List.cons_append, wordColon, if_pos hWord, hWords hTail]
      rfl
    · cases h

theorem cutAt_append (h : c ∉ front) :
    JavaScript.cutAt c (front ++ c :: rest) = some (front, c :: rest) := by
  have hIndex : (front ++ c :: rest).idxOf? c = some front.length := by
    induction front with
    | nil =>
      rw [List.nil_append, List.idxOf?_cons, if_pos (beq_self_eq_true c)]
      rfl
    | cons d front ih =>
      rw [List.mem_cons, not_or] at h
      rw [List.cons_append, List.idxOf?_cons, ih h.2,
        if_neg fun hEq => h.1 (eq_of_beq hEq).symm]
      rfl
  rw [JavaScript.cutAt, hIndex, Option.map_some, List.take_left, List.drop_left]

theorem cutAt_none (h : c ∉ str) : JavaScript.cutAt c str = none := by
  rw [JavaScript.cutAt, List.idxOf?_eq_none_iff.mpr h]
  rfl

namespace Base

variable (base : Base)

/-- All characters of the scheme are `\w`. -/
def WordScheme : Prop := ∀ c ∈ base.scheme, isWord c = true

theorem colon_notMem_scheme : ':' ∉ base.scheme := by
  intro h
  cases base.scheme_chars _ h

theorem new_eq_none (h : ¬ base.WordScheme) : JavaScript.URL.new base.url = none := by
  have hNot : ∃ c ∈ base.scheme, isWord c = false := by
    by_contra hAll
    refine h fun c hc => ?_
    by_contra hWord
    exact hAll ⟨c, hc, Bool.eq_false_iff.mpr hWord⟩
  have hWords : wordsColon base.url = none := by
    rw [url, List.append_assoc, List.append_assoc, List.append_assoc]
    exact wordsColon_none hNot base.colon_notMem_scheme
  obtain ⟨c, s, hScheme, hLetter⟩ := base.scheme_letter
  have hWord : isWord c = true := by
    rw [isWord, Char.isAlphanum, hLetter]
    rfl
  have hNe : c ≠ ':' := by
    rintro rfl
    cases hLetter
  have hTail : wordsColon base.url = wordColon base.url := by
    rw [url, hScheme, List.cons_append, List.cons_append, List.cons_append, List.cons_append,
      wordsColon, wordColon, if_neg hNe]
  rw [JavaScript.URL.new, ← hTail, hWords]
  rfl

theorem new_eq (h : base.WordScheme) :
    ∃ u, JavaScript.URL.new base.url = some u ∧ u.pathname = base.path ∧
      u.origin = base.scheme ++ [':', '/', '/'] ++ base.host ∧
      wordColon (base.scheme ++ [':']) = some (base.scheme ++ [':']) := by
  obtain ⟨c, s, hScheme, -⟩ := base.scheme_letter
  have hMatch : wordColon base.url = some (base.scheme ++ [':']) := by
    rw [WordScheme, hScheme] at h
    obtain ⟨hc, hs⟩ := List.forall_mem_cons.mp h
    have hUrl : base.url =
        c :: (s ++ ':' :: (['/', '/'] ++ base.host ++ base.path ++ base.queryText)) := by
      rw [url, hScheme]
      simp
    rw [hUrl, wordColon, if_pos hc, wordsColon_append hs, hScheme]
    rfl
  have hDrop : base.url.drop ((base.scheme ++ [':']).length + 2) =
      base.host ++ (base.path ++ base.queryText) := by
    have hUrl : base.url =
        base.scheme ++ [':', '/', '/'] ++ (base.host ++ (base.path ++ base.queryText)) := by
      simp [url]
    have hLength : (base.scheme ++ [':']).length + 2 = (base.scheme ++ [':', '/', '/']).length := by
      simp
    rw [hUrl, hLength, List.drop_left]
  have hHost : JavaScript.cutAt '/' (base.host ++ (base.path ++ base.queryText)) =
      some (base.host, base.path ++ base.queryText) := by
    obtain ⟨tail, hPath⟩ := List.head?_eq_some_iff.mp base.path_slash
    rw [hPath]
    exact cutAt_append fun hMem => (base.host_chars _ hMem).1 rfl
  have hPath : (JavaScript.cutAt '?' (base.path ++ base.queryText)).getD
      (base.path ++ base.queryText, []) = (base.path, base.queryText) := by
    have hFree : '?' ∉ base.path := fun hMem => (base.path_chars _ hMem).1 rfl
    cases hQuery : base.query with
    | none =>
      have hNil : base.queryText = [] := by
        rw [queryText, hQuery]
        rfl
      rw [hNil, List.append_nil, cutAt_none hFree]
      rfl
    | some q =>
      have hText : base.queryText = '?' :: q := by
        rw [queryText, hQuery]
        rfl
      rw [hText, cutAt_append hFree]
      rfl
  cases hNew : JavaScript.URL.new base.url with
  | none =>
    rw [JavaScript.URL.new, hMatch] at hNew
    cases hNew
  | some u =>
    rw [JavaScript.URL.new, hMatch, Option.map_some] at hNew
    have hMembers := (Option.some.inj hNew).symm
    refine ⟨u, rfl, ?_, ?_, ?_⟩
    · rw [congrArg JavaScript.URL.pathname hMembers]
      simp only [hDrop, hHost, Option.map_some, Option.getD_some, List.drop_left, hPath]
    · rw [congrArg JavaScript.URL.origin hMembers]
      simp only [hDrop, hHost, Option.map_some, Option.getD_some]
      simp
    · have hAgain := wordColon_append hMatch []
      rwa [List.append_nil] at hAgain

end Base

end Parts

/-! ## The segments of a link -/

/-- The last segment of the text is empty: the text is empty or ends with a `/`. -/
def EndsEmpty (text : Text) : Prop := (text.splitOn '/').getLast? = some []

/-- The empty segments at the end of the text. -/
def emptyEnd (text : Text) : List Text := (text.splitOn '/').rtakeWhile List.isEmpty

/-- How many segments the `..` of a link leave. -/
def climb (src : Text) : Nat := (effect here up (Ruby.split src)).climb

/-- What a link enters after that, but for the empty segments at its end. -/
def rest (src : Text) : List Text := (effect here up (Ruby.split src)).rest

/-- How many segments of a path a link keeps. -/
def kept (path src : Text) : Nat := (path.splitOn '/').length - climb src

/-- The empty segments at the ends of a path and of a link do not matter: there are none, those of the
path are left, or all that there is left is the root. -/
def Agrees (path src : Text) : Prop :=
  ¬ EndsEmpty src ∧
      (¬ EndsEmpty path ∨ kept path src = 0 ∨ kept path src = 1 ∧ (rest src).head? ≠ some []) ∨
    IsRoot ((path.splitOn '/').take (kept path src) ++ rest src ++ emptyEnd src)

section Segments

variable (text path src : Text)

theorem emptyEnd_eq : emptyEnd text = List.replicate (emptyEnd text).length [] :=
  List.eq_replicate_iff.mpr ⟨rfl, fun _ h => List.isEmpty_iff.mp (List.mem_rtakeWhile_imp h)⟩

theorem split_append : Ruby.split text ++ emptyEnd text = text.splitOn '/' :=
  List.rdropWhile_append_rtakeWhile ..

theorem endsEmpty_iff : EndsEmpty text ↔ (emptyEnd text).length ≠ 0 := by
  have hNe : text.splitOn '/' ≠ [] := List.splitOn_ne_nil '/' text
  rw [EndsEmpty, Ne, List.length_eq_zero_iff, emptyEnd, List.rtakeWhile_eq_nil_iff,
    List.getLast?_eq_some_getLast hNe]
  constructor
  · intro hLast hNone
    refine hNone hNe ?_
    rw [Option.some.inj hLast]
    rfl
  · intro hSome
    by_contra hLast
    exact hSome fun _ hEmpty => hLast (congrArg some (List.isEmpty_iff.mp hEmpty))

theorem notMem_rest : ∀ seg ∈ rest src, '/' ∉ seg := fun seg h => by
  have hSplit : seg ∈ Ruby.split src := mem_rest h
  have hMem : seg ∈ src.splitOn '/' := by
    rw [← split_append src]
    exact List.mem_append_left _ hSplit
  exact notMem_of_mem_splitOn hMem

/-- What JavaScript makes of the segments. -/
theorem walk_javaScript :
    walk here up (path.splitOn '/') (src.splitOn '/') =
      (path.splitOn '/').take (kept path src) ++ rest src ++
        List.replicate (emptyEnd src).length [] := by
  rw [← split_append src, emptyEnd_eq src, walk_append_replicate (by decide) (by decide), walk_eq,
    List.length_replicate]
  rfl

/-- What Ruby makes of the segments. -/
theorem walk_ruby :
    walk here up (Ruby.split path) (Ruby.split src) =
      (path.splitOn '/').take (kept path src - (emptyEnd path).length) ++ rest src := by
  have hLength : (path.splitOn '/').length = (Ruby.split path).length + (emptyEnd path).length := by
    rw [← split_append path, List.length_append]
  have hTake : (Ruby.split path).take ((Ruby.split path).length - climb src) =
      (path.splitOn '/').take (kept path src - (emptyEnd path).length) := by
    have hKept : kept path src - (emptyEnd path).length = (Ruby.split path).length - climb src := by
      rw [kept, hLength]
      omega
    rw [hKept, ← split_append path, List.take_append_of_le_length (Nat.sub_le ..)]
  rw [walk_eq, Effect.on, ← hTake]
  rfl

theorem join_walk_iff (hPath : path.head? = some '/') :
    rooted '/' (join '/' (walk here up (path.splitOn '/') (src.splitOn '/'))) =
        rooted '/' (join '/' (walk here up (Ruby.split path) (Ruby.split src))) ↔
      Agrees path src := by
  obtain ⟨tail, rfl⟩ := List.head?_eq_some_iff.mp hPath
  have hSplit : ('/' :: tail).splitOn '/' = [] :: tail.splitOn '/' := by
    rw [List.splitOn_cons_eq_if_modifyHead, if_pos (beq_self_eq_true '/')]
  have hKept : kept ('/' :: tail) src ≤ (tail.splitOn '/').length + 1 := by
    rw [kept, hSplit, List.length_cons]
    exact Nat.sub_le ..
  have hSame : kept ('/' :: tail) src = kept ('/' :: tail) src - (emptyEnd ('/' :: tail)).length ↔
      ¬ EndsEmpty ('/' :: tail) ∨ kept ('/' :: tail) src = 0 := by
    rw [endsEmpty_iff]
    omega
  rw [walk_javaScript, walk_ruby, hSplit,
    rooted_join_append_iff (Nat.sub_le ..) hKept (fun seg h => notMem_of_mem_splitOn h)
      (notMem_rest src), hSame, or_assoc, Agrees, hSplit, ← emptyEnd_eq, endsEmpty_iff src, not_not]

end Segments

/-! ## Links -/

/-- The two engines take the link in the same way, and it shows no empty segments at an end. -/
def Resolves (base : Base) (src : Text) : Prop :=
  (wordColon src).isSome = true ∨
    Ruby.laterLine src = false ∧ base.WordScheme ∧
      (src.head? = some '/' ∨ Agrees base.path src)

variable {src : Text}

/-- A url that JavaScript makes starts with the scheme of the page, and what is no url does not. -/
theorem ne_of_origin {u : JavaScript.URL} {scheme host : Text}
    (hOrigin : u.origin = scheme ++ [':', '/', '/'] ++ host)
    (hScheme : wordColon (scheme ++ [':']) = some (scheme ++ [':'])) (hSrc : wordColon src = none)
    (path : Text) : u.origin ++ path ≠ src := by
  intro hEq
  have hMatch := wordColon_append hScheme (['/', '/'] ++ host ++ path)
  have hText : scheme ++ [':'] ++ (['/', '/'] ++ host ++ path) = src := by
    rw [← hEq, hOrigin]
    simp
  rw [hText, hSrc] at hMatch
  cases hMatch

theorem undefined_ne (scheme host : Text) :
    JavaScript.undefined ++ src ≠ scheme ++ [':', '/', '/'] ++ host ++ src := by
  intro hEq
  have hColon : ':' ∈ JavaScript.undefined := by
    rw [List.append_cancel_right hEq]
    simp
  exact absurd hColon (by decide)

/-- What `href` of JavaScript puts behind the origin. -/
def javaScriptTarget (path src : Text) : Text :=
  if src.head? = some '/' then src
  else rooted '/' (join '/' (walk here up (path.splitOn '/') (src.splitOn '/')))

/-- What `href` of Ruby puts behind the origin. -/
def rubyTarget (path src : Text) : Text :=
  if src.head? = some '/' then src
  else rooted '/' (join '/' (walk here up (Ruby.split path) (Ruby.split src)))

theorem javaScript_href (hSrc : wordColon src = none) (u : JavaScript.URL) :
    JavaScript.href (some u) src = some (u.origin ++ javaScriptTarget u.pathname src) := by
  rw [JavaScript.href, hSrc, if_neg (by decide), javaScriptTarget]
  split
  · rfl
  · rw [Option.map_some, rooted]
    simp only [ne_eq, ite_not]

theorem ruby_href (hSrc : Ruby.isMatch src = false) (uri : Ruby.Uri) :
    Ruby.href uri src = Ruby.origin uri ++ rubyTarget uri.path src := by
  rw [Ruby.href, hSrc, if_neg (by decide), rubyTarget]
  split
  · rfl
  · rfl

theorem target_iff {path : Text} (hPath : path.head? = some '/') :
    javaScriptTarget path src = rubyTarget path src ↔ src.head? = some '/' ∨ Agrees path src := by
  rw [javaScriptTarget, rubyTarget]
  by_cases hSlash : src.head? = some '/'
  · rw [if_pos hSlash, if_pos hSlash]
    exact iff_of_true rfl (.inl hSlash)
  · rw [if_neg hSlash, if_neg hSlash, join_walk_iff path src hPath, or_iff_right hSlash]

/-- Where JavaScript does not know the scheme of the page, it finds no url or one without a scheme. -/
theorem javaScript_undefined (hSrc : wordColon src = none) :
    JavaScript.href none src ≠ some src ∧
      ∀ uri, JavaScript.href none src ≠ some (Ruby.origin uri ++ rubyTarget uri.path src) := by
  rw [JavaScript.href, hSrc, if_neg (by decide)]
  by_cases hSlash : src.head? = some '/'
  · rw [if_pos hSlash]
    refine ⟨fun hEq => ?_, fun uri hEq => ?_⟩
    · have hLength := congrArg List.length (Option.some.inj hEq)
      rw [List.length_append] at hLength
      have hPos : 0 < JavaScript.undefined.length := by decide
      change JavaScript.undefined.length + src.length = src.length at hLength
      omega
    · rw [rubyTarget, if_pos hSlash, Ruby.origin] at hEq
      exact undefined_ne _ _ (Option.some.inj hEq)
  · rw [if_neg hSlash]
    exact ⟨(Option.some_ne_none _).symm, fun _ => (Option.some_ne_none _).symm⟩

/-- The page `http://retro/roms/?page=2`. -/
def page : Base where
  scheme := ['h', 't', 't', 'p']
  host := ['r', 'e', 't', 'r', 'o']
  path := ['/', 'r', 'o', 'm', 's', '/']
  query := some ['p', 'a', 'g', 'e', '=', '2']
  scheme_letter := ⟨'h', ['t', 't', 'p'], rfl, rfl⟩
  scheme_chars := List.all_eq_true.mp rfl
  host_chars := by simp
  path_slash := rfl
  path_chars := by simp
  query_chars := by simp

/-- The parts of the url of a page. -/
def parsePage (url : Text) : Ruby.Uri where
  scheme := url.takeWhile (· ≠ ':')
  hostname := ((url.dropWhile (· ≠ ':')).drop 3).takeWhile (· ≠ '/')
  path := (((url.dropWhile (· ≠ ':')).drop 3).dropWhile (· ≠ '/')).takeWhile (· ≠ '?')

end RetroConfig.PageURL

import Inkpress.Text.Split

namespace Inkpress.Site

inductive Route
  | health
  | ready
  | posts
  | post (segment : List Char)
  | image (segment : List Char)
  | home (segment : List Char)
  | echo
  deriving Repr, DecidableEq

namespace Route

def ofSegments? : List (List Char) → Option Route
  | [a] =>
    if a = "health".toList then some health
    else if a = "ready".toList then some ready
    else if a = "test".toList then some echo
    else none
  | [a, b] =>
    if a = "api".toList ∧ b = "blog_posts".toList then some posts
    else if a = "home".toList ∧ b ≠ [] then some (home b)
    else none
  | [a, b, c] =>
    if a = "api".toList ∧ b = "blog".toList ∧ c ≠ [] then some (post c) else none
  | [a, b, c, d] =>
    if a = "api".toList ∧ b = "blog".toList ∧ c = "image".toList ∧ d ≠ [] then some (image d)
    else none
  | _ => none

def ofPath? (path : List Char) : Option Route :=
  match path with
  | '/' :: rest => ofSegments? (Text.split '/' rest)
  | _ => none

/-- What requests to a route are counted under, if they are: its path with names for parameters. -/
def endpoint? : Route → Option String
  | health => none
  | ready => none
  | posts => some "/api/blog_posts"
  | post _ => some "/api/blog/\x7bpost_id\x7d"
  | image _ => some "/api/blog/image/\x7bimage_id\x7d"
  | home _ => some "/home/\x7bname\x7d"
  | echo => some "/test"

end Route

end Inkpress.Site

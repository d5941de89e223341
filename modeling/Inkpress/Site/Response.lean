import Inkpress.Bytes
import Inkpress.Error

namespace Inkpress.Site.Html

def escapeChar (c : Char) : List Char :=
  if c = '&' then "&amp;".toList
  else if c = '<' then "&lt;".toList
  else if c = '>' then "&gt;".toList
  else if c = '"' then "&quot;".toList
  else if c = '\'' then "&#x27;".toList
  else [c]

def escape (cs : List Char) : List Char :=
  cs.flatMap escapeChar

def greeting (name : String) : String :=
  "<h1>Hello " ++ String.ofList (escape name.toList) ++ " </br> </h1>"

end Inkpress.Site.Html

namespace Inkpress.Site

structure Response where
  status : Nat
  headers : List (String × String)
  body : ByteArray

namespace Response

def contentLength (n : Nat) : String × String :=
  ("content-length", toString n)

def ofBody (status : Nat) (contentType : String) (body : ByteArray) : Response :=
  ⟨status, [("content-type", contentType), contentLength body.size], body⟩

def text (status : Nat) (s : String) : Response :=
  ofBody status "text/plain; charset=utf-8" s.toUTF8

def html (status : Nat) (s : String) : Response :=
  ofBody status "text/html; charset=utf-8" s.toUTF8

def json (status : Nat) (j : Json) : Response :=
  ofBody status "application/json" j.render.toUTF8

def ofError (e : Error) : Response :=
  json e.status e.body

def bare (status : Nat) : Response :=
  ⟨status, [], .empty⟩

def header (r : Response) (h : String × String) : Response :=
  { r with headers := r.headers ++ [h] }

def withoutBody (r : Response) : Response :=
  { r with body := .empty }

def isHeaderChar (c : Char) : Bool :=
  c = '\t' || (32 ≤ c.toNat && c.toNat ≠ 127)

end Response

end Inkpress.Site

import DismasmOS.Fs.Impl

/-!
This module contains `fs_resolve_path`: the joined text is cut to what fits `temp[128]`, at most 16
components are kept in `comps` and a component that would overflow `out_path` is left out.
-/

namespace DismasmOS

def RESOLVE_MAX_TEXT : Nat := FS_MAX_PATH * 2
def RESOLVE_MAX_COMPS : Nat := 16

def resolveText (cwd path : List UInt8) : List UInt8 :=
  if path.headD NUL = chr '/' then
    (cstr path).take (RESOLVE_MAX_TEXT - 1)
  else if strcmp cwd (str "/") = 0 then
    strncat (str "/") path (RESOLVE_MAX_TEXT - 2)
  else
    let temp := (cstr cwd).take (RESOLVE_MAX_TEXT - 1)
    let clen := strlen temp
    if clen < RESOLVE_MAX_TEXT - 2 then
      strncat (temp ++ str "/") path (RESOLVE_MAX_TEXT - clen - 2)
    else
      temp

def pushComp (comps : List (List UInt8)) (start : List UInt8) : List (List UInt8) :=
  if strcmp start (str ".") = 0 then
    comps
  else if strcmp start (str "..") = 0 then
    comps.dropLast
  else if comps.length < RESOLVE_MAX_COMPS then
    comps ++ [start]
  else
    comps

-- Every iteration but the last reads at least one character.
def resolveComps (comps : List (List UInt8)) (fuel : Nat) (p : List UInt8) : List (List UInt8) :=
  match fuel with
  | 0 => comps
  | fuel + 1 =>
    let p := p.dropWhile (· = chr '/')
    if p = [] then
      comps
    else
      let start := p.takeWhile (· ≠ chr '/')
      let rest := (p.dropWhile (· ≠ chr '/')).tail
      resolveComps (pushComp comps start) fuel rest

def appendComp (outPath comp : List UInt8) : List UInt8 :=
  let len := strlen outPath
  if len + 1 + strlen comp < FS_MAX_PATH then
    strcat (outPath ++ str "/") comp
  else
    outPath

def fsResolvePath (cwd path : List UInt8) : List UInt8 :=
  if path.headD NUL = NUL then
    if cwd.headD NUL = NUL then str "/" else (cstr cwd).take (FS_MAX_PATH - 1)
  else
    let temp := resolveText cwd path
    let comps := resolveComps [] temp.length temp
    if comps.length = 0 then
      str "/"
    else
      comps.foldl appendComp []

end DismasmOS

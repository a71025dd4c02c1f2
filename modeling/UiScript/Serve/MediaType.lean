import UiScript.Path
import UiScript.Text.Case

/-!
# Media types

The type of a file is found by the ending of its name.
-/

namespace UiScript.Serve.MediaType

/-- The types of each family, with their endings. -/
def families : List (String × List (String × List String)) := [
  ("application", [("javascript", [".js", ".mjs"]), ("json", [".json"]),
    ("manifest+json", [".webmanifest"]), ("msword", [".doc", ".dot", ".wiz"]), ("n-quads", [".nq"]),
    ("n-triples", [".nt"]), ("octet-stream", [".a", ".bin", ".dll", ".exe", ".o", ".obj", ".so"]),
    ("oda", [".oda"]), ("pdf", [".pdf"]), ("pkcs7-mime", [".p7c"]),
    ("postscript", [".ai", ".eps", ".ps"]), ("trig", [".trig"]),
    ("vnd.apple.mpegurl", [".m3u", ".m3u8"]), ("vnd.ms-excel", [".xlb", ".xls"]),
    ("vnd.ms-powerpoint", [".pot", ".ppa", ".pps", ".ppt", ".pwz"]), ("wasm", [".wasm"]),
    ("x-bcpio", [".bcpio"]), ("x-cpio", [".cpio"]), ("x-csh", [".csh"]), ("x-dvi", [".dvi"]),
    ("x-gtar", [".gtar"]), ("x-hdf", [".hdf"]), ("x-hdf5", [".h5"]), ("x-latex", [".latex"]),
    ("x-mif", [".mif"]), ("x-netcdf", [".cdf", ".nc"]), ("x-pkcs12", [".p12", ".pfx"]),
    ("x-pn-realaudio", [".ram"]), ("x-python-code", [".pyc", ".pyo"]), ("x-sh", [".sh"]),
    ("x-shar", [".shar"]), ("x-shockwave-flash", [".swf"]), ("x-sv4cpio", [".sv4cpio"]),
    ("x-sv4crc", [".sv4crc"]), ("x-tar", [".tar"]), ("x-tcl", [".tcl"]), ("x-tex", [".tex"]),
    ("x-texinfo", [".texi", ".texinfo"]), ("x-troff", [".roff", ".t", ".tr"]),
    ("x-troff-man", [".man"]), ("x-troff-me", [".me"]), ("x-troff-ms", [".ms"]),
    ("x-ustar", [".ustar"]), ("x-wais-source", [".src"]),
    ("xml", [".rdf", ".wsdl", ".xpdl", ".xsl"]), ("zip", [".zip"])]),
  ("audio", [("3gpp", [".3gp", ".3gpp"]), ("3gpp2", [".3g2", ".3gpp2"]),
    ("aac", [".aac", ".adts", ".ass", ".loas"]), ("basic", [".au", ".snd"]),
    ("mpeg", [".mp2", ".mp3"]), ("opus", [".opus"]), ("x-aiff", [".aif", ".aifc", ".aiff"]),
    ("x-pn-realaudio", [".ra"]), ("x-wav", [".wav"])]),
  ("image", [("avif", [".avif"]), ("bmp", [".bmp"]), ("gif", [".gif"]), ("heic", [".heic"]),
    ("heif", [".heif"]), ("ief", [".ief"]), ("jpeg", [".jpe", ".jpeg", ".jpg"]), ("png", [".png"]),
    ("svg+xml", [".svg"]), ("tiff", [".tif", ".tiff"]), ("vnd.microsoft.icon", [".ico"]),
    ("x-cmu-raster", [".ras"]), ("x-portable-anymap", [".pnm"]), ("x-portable-bitmap", [".pbm"]),
    ("x-portable-graymap", [".pgm"]), ("x-portable-pixmap", [".ppm"]), ("x-rgb", [".rgb"]),
    ("x-xbitmap", [".xbm"]), ("x-xpixmap", [".xpm"]), ("x-xwindowdump", [".xwd"])]),
  ("message", [("rfc822", [".eml", ".mht", ".mhtml", ".nws"])]),
  ("text", [("css", [".css"]), ("csv", [".csv"]), ("html", [".htm", ".html"]), ("n3", [".n3"]),
    ("plain", [".bat", ".c", ".h", ".ksh", ".pl", ".srt", ".txt"]), ("richtext", [".rtx"]),
    ("tab-separated-values", [".tsv"]), ("vtt", [".vtt"]), ("x-python", [".py"]),
    ("x-setext", [".etx"]), ("x-sgml", [".sgm", ".sgml"]), ("x-vcard", [".vcf"]),
    ("xml", [".xml"])]),
  ("video", [("mp4", [".mp4"]), ("mpeg", [".m1v", ".mpa", ".mpe", ".mpeg", ".mpg"]),
    ("quicktime", [".mov", ".qt"]), ("webm", [".webm"]), ("x-msvideo", [".avi"]),
    ("x-sgi-movie", [".movie"])])]

def endings : List (String × List String) :=
  families.flatMap fun (family, types) => types.map fun (type, es) => (family ++ "/" ++ type, es)

/-- Endings that stand for two others. -/
def compounds : List (String × String) := [
  (".svgz", ".svg.gz"), (".tgz", ".tar.gz"), (".taz", ".tar.gz"), (".tz", ".tar.gz"),
  (".tbz2", ".tar.bz2"), (".txz", ".tar.xz")
]

/-- Endings of packed files; what stands before them gives the type. -/
def packings : List String := [".gz", ".Z", ".bz2", ".xz", ".br"]

def ofEnding? (ending : String) : Option String :=
  (endings.find? (·.2.contains (Text.lower ending))).map Prod.fst

/-- The ending of a path, behind which no packing is left. -/
def ending (path : String) : String :=
  let (stem, last) := Path.splitExtension path
  let (stem, last) :=
    match compounds.lookup (Text.lower last) with
    | some both => Path.splitExtension (stem ++ both)
    | none => (stem, last)
  if packings.contains last then (Path.splitExtension stem).2 else last

def ofPath (path : String) : String := (ofEnding? (ending path)).getD "application/octet-stream"

/-- The type is a kind of text, for which the encoding is told. -/
def isText (type : String) : Bool :=
  type.startsWith "text/" || type == "application/javascript"

end UiScript.Serve.MediaType

import Inkpress.Text.Basic
import Inkpress.Text.Split

namespace Inkpress.Image

/-- Common extensions, in small letters, with their content types. -/
def kinds : List (String × String) :=
  [("3g2", "video/3gpp2"), ("3gp", "video/3gpp"), ("7z", "application/x-7z-compressed"),
    ("aac", "audio/aac"), ("ac3", "audio/ac3"), ("ai", "application/postscript"),
    ("aif", "audio/aiff"), ("aifc", "audio/aiff"), ("aiff", "audio/aiff"),
    ("apng", "image/apng"), ("art", "image/x-jg"), ("asc", "text/plain"),
    ("asf", "video/x-ms-asf"), ("asx", "video/x-ms-asf"), ("atom", "application/atom+xml"),
    ("avi", "video/x-msvideo"), ("avif", "image/avif"), ("bat", "text/plain"),
    ("bin", "application/octet-stream"), ("bmp", "image/bmp"), ("bz2", "application/x-bzip2"),
    ("c", "text/plain"), ("cmx", "image/x-cmx"), ("cpp", "text/plain"),
    ("csh", "application/x-csh"), ("css", "text/css"), ("csv", "text/csv"), ("cur", "image/x-icon"),
    ("dds", "image/vnd.ms-dds"),
    ("dib", "image/bmp"), ("dll", "application/x-msdownload"), ("doc", "application/msword"),
    ("docm", "application/vnd.ms-word.document.macroEnabled.12"),
    ("docx", "application/vnd.openxmlformats-officedocument.wordprocessingml.document"),
    ("dot", "application/msword"),
    ("dotx", "application/vnd.openxmlformats-officedocument.wordprocessingml.template"),
    ("dtd", "application/xml-dtd"), ("dvi", "application/x-dvi"), ("dwf", "drawing/x-dwf"),
    ("dwg", "image/vnd.dwg"), ("dxf", "image/vnd.dxf"), ("emf", "application/x-msmetafile"),
    ("emz", "application/x-msmetafile"), ("eot", "application/vnd.ms-fontobject"),
    ("eps", "application/postscript"), ("epub", "application/epub+zip"),
    ("exe", "application/octet-stream"), ("exr", "image/aces"), ("flac", "audio/flac"),
    ("flv", "video/x-flv"), ("gif", "image/gif"), ("gz", "application/gzip"), ("h", "text/plain"),
    ("hdr", "image/vnd.radiance"), ("heic", "image/heic"), ("heif", "image/heif"),
    ("htm", "text/html"), ("html", "text/html"), ("ico", "image/x-icon"), ("ics", "text/calendar"),
    ("ief", "image/ief"), ("ini", "text/plain"), ("jar", "application/java-archive"),
    ("jfif", "image/jpeg"), ("jp2", "image/jp2"), ("jpe", "image/jpeg"), ("jpeg", "image/jpeg"),
    ("jpg", "image/jpeg"), ("jpx", "image/jpx"), ("js", "text/javascript"),
    ("json", "application/json"), ("jxl", "image/jxl"), ("jxr", "image/jxr"),
    ("latex", "application/x-latex"), ("log", "text/plain"), ("m3u", "audio/x-mpegurl"),
    ("m4a", "audio/m4a"), ("m4v", "video/x-m4v"), ("md", "text/markdown"),
    ("mid", "audio/midi"), ("midi", "audio/midi"), ("mjs", "text/javascript"),
    ("mkv", "video/x-matroska"), ("mov", "video/quicktime"), ("mp2", "video/mpeg"),
    ("mp3", "audio/mpeg"), ("mp4", "video/mp4"), ("mpe", "video/mpeg"), ("mpeg", "video/mpeg"),
    ("mpg", "video/mpeg"), ("odg", "application/vnd.oasis.opendocument.graphics"),
    ("odp", "application/vnd.oasis.opendocument.presentation"),
    ("ods", "application/vnd.oasis.opendocument.spreadsheet"),
    ("odt", "application/vnd.oasis.opendocument.text"), ("oga", "audio/ogg"),
    ("ogg", "audio/ogg"), ("ogv", "video/ogg"), ("otf", "font/otf"),
    ("pbm", "image/x-portable-bitmap"), ("pct", "image/pict"), ("pcx", "image/vnd.zbrush.pcx"),
    ("pdf", "application/pdf"), ("pgm", "image/x-portable-graymap"), ("pic", "image/pict"),
    ("pict", "image/pict"), ("png", "image/png"), ("pnm", "image/x-portable-anymap"),
    ("pnt", "image/x-macpaint"), ("ppm", "image/x-portable-pixmap"),
    ("ppt", "application/vnd.ms-powerpoint"),
    ("pptx", "application/vnd.openxmlformats-officedocument.presentationml.presentation"),
    ("ps", "application/postscript"), ("psd", "image/vnd.adobe.photoshop"),
    ("py", "text/plain"), ("qt", "video/quicktime"), ("rar", "application/x-rar-compressed"),
    ("ras", "image/x-cmu-raster"), ("rgb", "image/x-rgb"), ("rtf", "application/rtf"),
    ("sh", "application/x-sh"), ("sgm", "text/sgml"), ("sgml", "text/sgml"),
    ("svg", "image/svg+xml"), ("svgz", "image/svg+xml"), ("swf", "application/x-shockwave-flash"),
    ("tar", "application/x-tar"), ("tex", "application/x-tex"), ("tga", "image/x-targa"),
    ("tgz", "application/x-compressed"), ("tif", "image/tiff"), ("tiff", "image/tiff"),
    ("toml", "text/x-toml"), ("tsv", "text/tab-separated-values"), ("ttf", "font/ttf"),
    ("txt", "text/plain"), ("wasm", "application/wasm"), ("wav", "audio/wav"),
    ("wbmp", "image/vnd.wap.wbmp"), ("wdp", "image/vnd.ms-photo"), ("weba", "audio/webm"),
    ("webm", "video/webm"), ("webp", "image/webp"), ("wma", "audio/x-ms-wma"),
    ("wmf", "application/x-msmetafile"), ("wmv", "video/x-ms-wmv"), ("woff", "font/woff"),
    ("woff2", "font/woff2"), ("xbm", "image/x-xbitmap"), ("xhtml", "application/xhtml+xml"),
    ("xls", "application/vnd.ms-excel"),
    ("xlsx", "application/vnd.openxmlformats-officedocument.spreadsheetml.sheet"),
    ("xml", "text/xml"), ("xpm", "image/x-xpixmap"), ("xsl", "text/xml"), ("xslt", "text/xml"),
    ("xwd", "image/x-xwindowdump"), ("yaml", "text/x-yaml"), ("yml", "text/x-yaml"),
    ("zip", "application/zip")]

def guessKind? (path : String) : Option String := do
  let ext ← Text.Path.extension? path.toList
  let (_, kind) ← kinds.find? (·.1 = Text.lowerAscii (String.ofList ext))
  some kind

end Inkpress.Image

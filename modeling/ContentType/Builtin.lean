import ContentType.RuleTable.Merge

namespace ContentType

/-- Rules for common types of images, documents, archives, programs, scripts, sound, video and
fonts. -/
def builtinLines : List String :=
  ["# Built-in rules.",
   "#",
   "# A rule: [>...]offset [u]type[&mask] [relation]value [description]",
   "# Rules with a leading '>' are tested only when the rule they continue holds.",
   "# The first top-level rule that yields a description decides.",
   "",
   "# Images",
   "0 string \\x89PNG image/png",
   "0 string GIF8 image/gif",
   "0 beshort 0xffd8 image/jpeg",
   "0 string MM\\x00\\x2a image/tiff",
   "0 string II\\x2a\\x00 image/tiff",
   "0 string 8BPS image/x-psd",
   "0 string BM image/x-bmp",
   "0 string \\0\\0\\1\\0 image/x-ico",
   "",
   "# RIFF containers",
   "0 string RIFF",
   ">8 string WEBP image/webp",
   ">8 string WAVE audio/x-wav",
   ">8 string AVI\\x20 video/x-msvideo",
   "",
   "# Documents",
   "0 string %PDF- application/pdf",
   "0 string %! application/postscript",
   "0 string \x7b\\\\rtf text/rtf",
   "0 string \\320\\317\\021\\340\\241\\261\\032\\341 application/x-ole-storage",
   "0 string SQLite\\ format\\ 3 application/x-sqlite3",
   "0 string \\<?xml text/xml",
   "",
   "# Archives and compression",
   "0 string PK\\003\\004 application/zip",
   "0 beshort 0x1f8b application/x-gzip",
   "0 string \\x1f\\x9d application/x-compress",
   "0 string BZh application/x-bzip2",
   "0 string \\3757zXZ\\000 application/x-xz",
   "0 string 7z\\xbc\\xaf\\x27\\x1c application/x-7z-compressed",
   "0 string Rar! application/x-rar",
   "0 string !<arch>\\ndebian application/x-deb",
   "0 string !<arch> application/x-archive",
   "0 beshort 0xedab",
   ">2 beshort 0xeedb application/x-rpm",
   "",
   "# Executables",
   "0 string \\177ELF",
   ">5 byte 1",
   ">>16 leshort 1 application/x-object",
   ">>16 leshort 2 application/x-executable",
   ">>16 leshort 3 application/x-sharedlib",
   ">>16 leshort 4 application/x-core",
   ">5 byte 2",
   ">>16 beshort 1 application/x-object",
   ">>16 beshort 2 application/x-executable",
   ">>16 beshort 3 application/x-sharedlib",
   ">>16 beshort 4 application/x-core",
   "0 string MZ application/x-ms-dos-executable",
   "0 belong 0xcafebabe application/x-java",
   "0 lelong 0xfeedface application/x-mach-binary",
   "0 lelong 0xfeedfacf application/x-mach-binary",
   "",
   "# Scripts",
   "0 string #!/bin/sh application/x-shellscript",
   "0 string #!\\ /bin/sh application/x-shellscript",
   "0 string #!/bin/bash application/x-shellscript",
   "0 string #!/usr/bin/env\\ bash application/x-shellscript",
   "0 string #!/usr/bin/perl application/x-perl",
   "0 string #!/usr/bin/env\\ perl application/x-perl",
   "0 string #!/usr/bin/python text/x-python",
   "0 string #!/usr/bin/env\\ python text/x-python",
   "",
   "# Audio and video",
   "0 string ID3 audio/x-mp3",
   "0 beshort&0xffe0 0xffe0 audio/x-mp3",
   "0 string OggS application/ogg",
   "0 string fLaC audio/x-flac",
   "0 string MThd audio/midi",
   "0 belong 0x2e736e64 audio/basic",
   "0 string FORM",
   ">8 string AIFF audio/x-aiff",
   "4 string ftyp",
   ">8 string isom video/mp4",
   ">8 string mp42 video/mp4",
   ">8 string M4A\\x20 audio/mp4",
   ">8 string qt\\x20\\x20 video/quicktime",
   "0 belong 0x1a45dfa3 video/x-matroska",
   "0 belong 0x000001ba video/mpeg",
   "0 belong 0x000001b3 video/mpeg",
   "",
   "# Fonts",
   "0 string \\0\\1\\0\\0\\0 application/x-font-ttf",
   "0 string OTTO application/x-font-otf",
   "0 string wOFF application/font-woff"]

def builtinSource : List UInt8 :=
  builtinLines.flatMap (fun line => Utf8.encode line ++ [0x0a])

/-- The table of the built-in rules. -/
def RuleTable.builtin : RuleTable :=
  (RuleTable.empty.merge builtinSource).1

end ContentType

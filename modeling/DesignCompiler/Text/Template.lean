namespace DesignCompiler.Text

def templateChars : List Char → List Char
  | [] => []
  | '$' :: '{' :: rest => '\\' :: '$' :: '{' :: templateChars rest
  | c :: rest =>
    if c = '\\' || c = '`' then '\\' :: c :: templateChars rest else c :: templateChars rest

def template (s : String) : String := .ofList (templateChars s.toList)

end DesignCompiler.Text

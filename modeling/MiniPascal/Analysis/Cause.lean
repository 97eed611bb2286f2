import MiniPascal.Code.Generate

/-!
# Why a Program Is Refused

The causes of semantic errors, with the one function that words them, and all that can make an
analysis fail.
-/

namespace MiniPascal

/-- The causes of semantic errors. The texts are names, types and values as they are written. -/
inductive SemanticCause where
  -- Initial values
  | unknownRecordType (name : String)
  | elementsOfKind (level : Nat) (kind : String)
  | elementOfKind (level : Nat) (kind found : String)
  | badInitializer (type : String)
  | elementCount (level : Nat) (wanted : Int) (found : Nat)
  | listExpected (level : Nat) (found : String)
  | constArrayWithoutValues
  | arraySize (wanted : Int) (found : Nat)
  | recordElement (found : String)
  | fieldType (type field : String)
  | noFields (record : String)
  | fieldCount (record : String)
  | fieldName (wanted found : String)
  | arrayFieldWithoutInfo (field : String)
  | unsupportedFieldType (type record : String)
  | fieldNames (record : String)
  | fieldValue (field type found : String)
  | arrayFieldLacksInfo (field : String)
  | recordInitializerExpected
  | singleCharacter
  | notOfType (type : String)
  | recordConstant (type : String)
  | recordVariable (type found : String)
  | unsupportedVariableType (type : String)
  | arrayInfoNeeded
  | unknownType (type : String)
  | notRecordType (name type : String)
  | arrayFieldNotDescribed (field record : String)
  -- Expressions
  | comparison (left right operator : String)
  | comparisonNotExpected (expected : String)
  | unsupportedNode (kind : String)
  | badTerm (term : String)
  | undeclaredVariable (name : String)
  | variableType (found expected name : String)
  | literalType (value kind expected : String)
  | literalForArray (value expected : String)
  | undeclaredFunction (name : String)
  | undeclaredArray (name : String)
  | notAnArray (name : String)
  | unnamedArray
  | indexCount (name : String) (dimensions indices : Nat)
  | indexOutOfBounds (index low high : String) (dimension : Nat)
  | badIndex (index : String)
  | undeclaredRecord (name : String)
  | notARecord (name : String)
  | badRecordType (type : String)
  | missingField (field record : String)
  | noElementType (name : String)
  | elementNotRecord (name : String)
  | nestedRecordType (record : String)
  | nestedNotRecord (record : String)
  | missingNestedField (field record : String)
  | badRecordObject
  | fieldTypeExpected (expected found field : String)
  -- Statements
  | arrayValue (found : String)
  | arrayElementTypes (left right : String)
  | arrayDimensions
  | elementValue (found expected : String)
  | unknownFieldType (access : String)
  | badTarget
  | undeclaredLoopVariable (name : String)
  | loopVariableType (name found : String)
  | loopStart (found : String)
  | loopStop (found : String)
  | loopDirection (found : String)
  | whileCondition (found : String)
  | ifCondition (found : String)
  -- Routines
  | undeclaredProcedure (name : String)
  | notAProcedure (name : String)
  | procedureArity (name : String) (wanted found : Nat)
  | argumentDimensions (wanted found : String)
  | argumentElements (wanted found : String)
  | procedureArgument (name parameter wanted found : String)
  | notAFunction (name : String)
  | functionArity (name : String) (wanted found : Nat)
  | functionArgument (name parameter wanted found : String)
  | alreadyDeclared (kind name : String)
  -- Raised on request
  | other (text : String)
  deriving Repr, DecidableEq

def SemanticCause.explain : SemanticCause → String
  | unknownRecordType name => s!"Тип записи '{name}' не найден в таблице символов"
  | elementsOfKind level kind =>
    s!"На уровне {level} ожидались элементы типа {kind}, получены значения другого типа"
  | elementOfKind level kind found =>
    s!"На уровне {level} ожидался элемент типа {kind}, но получен тип {found}"
  | badInitializer type => s!"Неверный инициализатор для типа '{type}'"
  | elementCount level wanted found =>
    s!"На уровне {level} ожидалось {wanted} элементов, получено {found}"
  | listExpected level found => s!"На уровне {level} ожидался список значений, получен тип {found}"
  | constArrayWithoutValues => "В константном объявлении массива не заданы начальные значения"
  | arraySize wanted found =>
    s!"Неверный размер массива. Ожидалось {wanted} элементов, получено {found}"
  | recordElement found => s!"Неверный тип значения {found} на базовом уровне массива записей"
  | fieldType type field => s!"Неверный тип {type} в поле {field}"
  | noFields record => s!"Запись '{record}' не содержит информации о полях"
  | fieldCount record =>
    s!"Инициализатор записи имеет неверное количество полей для типа '{record}'"
  | fieldName wanted found =>
    s!"Несоответствие имён полей: ожидалось '{wanted}', получено '{found}'"
  | arrayFieldWithoutInfo field => s!"Array field '{field}' has no array info"
  | unsupportedFieldType type record => s!"Неподдерживаемый тип поля '{type}' в записи '{record}'"
  | fieldNames record => s!"Инициализатор записи имеет неверный набор полей для типа '{record}'."
  | fieldValue field type found =>
    s!"В поле '{field}' ожидался тип '{type}', получен тип '{found}'"
  | arrayFieldLacksInfo field => s!"Поле-массив '{field}' не содержит информации о массиве"
  | recordInitializerExpected =>
    "Инициализатор записи должен быть объектом RecordInitializerNode или словарём"
  | singleCharacter => "Значение для типа char должно быть одиночным символом"
  | notOfType type => s!"Значение не является типом {type}"
  | recordConstant type => s!"Неверный инициализатор для типа записи '{type}'"
  | recordVariable type found =>
    s!"Ожидался объект RecordInitializerNode для записи '{type}', получен {found}"
  | unsupportedVariableType type => s!"Неподдерживаемый тип переменной: {type}"
  | arrayInfoNeeded =>
    "Для типа массива необходимо указать extra_info с измерениями и типом элементов"
  | unknownType type => s!"Неподдерживаемый или неизвестный тип: {type}"
  | notRecordType name type => s!"Тип '{name}' не является записью, получен тип '{type}'"
  | arrayFieldNotDescribed field record =>
    s!"Поле '{field}' в записи '{record}' является массивом, но не содержит информации о массиве (arr_info)"
  | comparison left right operator => s!"Ошибка типов: {left} != {right} в сравнении {operator}"
  | comparisonNotExpected expected =>
    s!"Ошибка типов: ожидаемый тип {expected}, но выражение возвращает boolean"
  | unsupportedNode kind => s!"Неподдерживаемый тип узла в  visit_expression_node: {kind}"
  | badTerm term => s!"Некорректный элемент в terms: {term}"
  | undeclaredVariable name => s!"Ошибка: переменная {name} не объявлена"
  | variableType found expected name => s!"Ошибка типов: {found} != {expected} для {name}"
  | literalType value kind expected => s!"Ошибка типов: {value} ({kind}) != {expected}"
  | literalForArray value expected =>
    s!"Ошибка типов: нельзя присвоить литерал {value} массиву типа {expected}"
  | undeclaredFunction name => s!"Ошибка: функция '{name}' не объявлена"
  | undeclaredArray name => s!"Ошибка: массив '{name}' не объявлен"
  | notAnArray name => s!"Ошибка: '{name}' не является массивом"
  | unnamedArray => "Ошибка: не распознано имя массива при обращении"
  | indexCount name dimensions indices =>
    s!"Ошибка: массив '{name}' имеет {dimensions} измерений, но передано {indices} индексов"
  | indexOutOfBounds index low high dimension =>
    s!"Ошибка: индекс {index} выходит за границы [{low}, {high}] для измерения {dimension}"
  | badIndex index => s!"Ошибка: не удалось вычислить индексное выражение: {index}"
  | undeclaredRecord name => s!"Ошибка: переменная/запись '{name}' не объявлена"
  | notARecord name => s!"Ошибка: переменная '{name}' не является записью"
  | badRecordType type => s!"Ошибка: '{type}' не является корректной записью"
  | missingField field record => s!"Ошибка: поле '{field}' отсутствует в записи '{record}'"
  | noElementType name => s!"Ошибка: тип элемента массива '{name}' не указан"
  | elementNotRecord name => s!"Ошибка: элемент массива '{name}' не является записью"
  | nestedRecordType record => s!"Ошибка: не удалось определить тип вложенной записи в {record}"
  | nestedNotRecord record => s!"Ошибка: {record} не является записью"
  | missingNestedField field record => s!"Ошибка: поле '{field}' отсутствует в записи {record}"
  | badRecordObject => "Ошибка: неверный тип объекта записи при обращении к полю"
  | fieldTypeExpected expected found field =>
    s!"Ошибка типов: ожидаемый тип '{expected}', а получен '{found}' для поля '{field}'"
  | arrayValue found => s!"Ошибка: массиву нельзя присвоить значение типа {found}"
  | arrayElementTypes left right =>
    s!"Ошибка: несовпадение типов элементов массивов ({left} != {right})"
  | arrayDimensions => "Ошибка: несовпадение размерностей массивов"
  | elementValue found expected =>
    s!"Ошибка типов: нельзя присвоить значение типа {found} элементу типа {expected}"
  | unknownFieldType access => s!"Ошибка: не удалось определить тип для {access}"
  | badTarget => "Ошибка: неверный тип идентификатора в операторе присваивания"
  | undeclaredLoopVariable name => s!"Ошибка: переменная цикла '{name}' не объявлена"
  | loopVariableType name found =>
    s!"Ошибка: переменная цикла '{name}' должна быть типа integer, а не {found}"
  | loopStart found =>
    s!"Ошибка: начальное значение цикла FOR должно быть целого типа, получено {found}"
  | loopStop found =>
    s!"Ошибка: конечное значение цикла FOR должно быть целого типа, получено {found}"
  | loopDirection found =>
    s!"Ошибка: направление цикла должно быть TO или DOWNTO, получено {found}"
  | whileCondition found => s!"Ошибка: условие WHILE должно быть булевого типа, получено {found}"
  | ifCondition found => s!"Ошибка: условие IF должно быть булевого типа, получено {found}"
  | undeclaredProcedure name => s!"Ошибка: процедура '{name}' не объявлена"
  | notAProcedure name => s!"Ошибка: '{name}' не является процедурой"
  | procedureArity name wanted found =>
    s!"Ошибка: процедура '{name}' ожидает {wanted} аргументов, получено {found}"
  | argumentDimensions wanted found => s!"Ошибка размерностей {wanted} != {found}"
  | argumentElements wanted found => s!"Ошибка типов {wanted} != {found}"
  | procedureArgument name parameter wanted found =>
    s!"Ошибка типов в вызове процедуры '{name}': для параметра '{parameter}' " ++
      s!"ожидается {wanted}, получено {found}"
  | notAFunction name => s!"Ошибка: '{name}' не является функцией"
  | functionArity name wanted found =>
    s!"Ошибка: функция '{name}' ожидает {wanted} аргументов, получено {found}"
  | functionArgument name parameter wanted found =>
    s!"Ошибка типов в вызове функции '{name}': для параметра '{parameter}' " ++
      s!"ожидается {wanted}, получено {found}"
  | alreadyDeclared kind name => s!"Ошибка: {kind} '{name}' уже объявлена"
  | other text => text

def SemanticCause.headed (explanation : String) : String :=
  s!"[Семантическая ошибка]: {explanation}"

/-- What can make an analysis fail. -/
inductive AnalysisError where
  /-- The program is refused. -/
  | semantic (cause : SemanticCause)
  /-- A tree does not have the shape that is needed. -/
  | fault (fault : Fault)
  /-- No code can be generated. -/
  | generate (error : GenerateError)
  /-- A name is declared twice in one scope. -/
  | duplicate (name : String)
  deriving Repr, DecidableEq

def AnalysisError.ofGenerateError : GenerateError → AnalysisError
  | .fault f => .fault f
  | e => .generate e

end MiniPascal
